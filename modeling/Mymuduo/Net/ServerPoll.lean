import Mathlib.Data.List.Nodup
import Mymuduo.Net.ServerSteps

/-! A poll of a server's loop: it finds established connections only, and for each of them at most
one callback that may close it. -/

namespace Mymuduo

open Lib

theorem Events.has_or (events mask mask' : Events) :
    events.has (mask ||| mask') = (events.has mask || events.has mask') := by
  have hzero : events &&& (mask ||| mask') = 0 ↔ events &&& mask = 0 ∧ events &&& mask' = 0 := by
    rw [BitVec.and_or_distrib_left]
    exact BitVec.or_eq_zero_iff
  rw [Bool.eq_iff_iff]
  simp only [Events.has, bne_iff_ne, ne_eq, hzero, Bool.or_eq_true]
  exact not_and_or

/-- `POLLHUP` without `POLLIN` calls `closeCallback_`, and `readCallback_` is called with `POLLIN`
only. -/
theorem Channel.length_mayClose_le {revents : Events}
    (h : revents.has (POLLPRI ||| POLLRDHUP) = true → revents.has POLLIN = true) :
    ((called revents).filter ServerLoops.mayClose).length ≤ 1 := by
  have hread : revents.has (POLLIN ||| POLLPRI ||| POLLRDHUP) = revents.has POLLIN := by
    rw [BitVec.or_assoc, Events.has_or]
    cases hpri : revents.has (POLLPRI ||| POLLRDHUP) with
    | false => exact Bool.or_false _
    | true =>
      rw [h hpri]
      rfl
  rw [called, hread]
  generalize revents.has POLLHUP = hup
  generalize revents.has POLLIN = readable
  generalize revents.has (POLLERR ||| POLLNVAL) = failed
  generalize revents.has POLLOUT = writable
  revert hup readable failed writable
  decide

namespace ServerLoops

variable {hand : Option (Nat × ServerFunctor)} {s : ServerLoops} {i l : Nat} {c : ServerConnection}

/-- What the kernel has registered in a loop is an established connection of that loop. -/
theorem Sound.interest (hs : Sound none s) {fd : Nat} {entry : Nat × Events}
    (h : (s.loops l).poller.interest fd = some entry) :
    ∃ c, s.conns entry.1 = some c ∧ c.ioLoop = l ∧ c.conn.channel.fd = fd ∧
      (s.loops l).poller.channels fd = some entry.1 ∧ Lives none s entry.1 c .up := by
  obtain ⟨i, c, hc, rfl, rfl, hdestroyed⟩ := hs.wired.owned l fd (.inr (by simp [h]))
  obtain ⟨stage, hlives⟩ := hs.lives i c hc
  have hholds := hlives.holds
  have htracks := hlives.tracks (by
    rintro rfl
    exact absurd (hlives.destroyed.symm.trans hdestroyed) (by simp [Stage.destroyCalls]))
  unfold EPollPoller.Tracks at htracks
  cases stage with
  | up =>
    rw [hholds.2.1] at htracks
    obtain rfl : entry = (c.conn.channel.ptr, c.conn.channel.events) :=
      Option.some.inj (h.symm.trans htracks.2)
    dsimp only
    rw [hlives.ptr]
    exact ⟨c, hc, rfl, rfl, by rw [htracks.1, hlives.ptr], hlives⟩
  | accepted | destroyed | closed | removed =>
    rw [hholds.2.1] at htracks
    exact absurd (h.symm.trans htracks.2) (by simp)

theorem Sound.leads (hs : Sound none s) (l : Nat) : (s.loops l).poller.Leads s.heap := by
  intro fd entry hentry
  obtain ⟨c, hc, -, hfd, hknown, -⟩ := hs.interest hentry
  exact ⟨hknown, c.conn.channel, by simp [heap, hc], hfd⟩

/-! ### Connections whose channels a poll has written to -/

def withRevents (c : ServerConnection) (revents : Events) : ServerConnection :=
  { c with conn := { c.conn with channel := { c.conn.channel with revents := revents } } }

theorem setHeap_conns (s : ServerLoops) (events : List (Nat × Events)) (i : Nat) :
    (s.setHeap (EPollPoller.revised events s.heap)).conns i = (s.conns i).map fun c =>
      withRevents c ((events.lookup i).getD c.conn.channel.revents) := by
  cases hc : s.conns i <;> simp [setHeap, EPollPoller.revised, heap, withRevents, hc]

theorem setHeap_some (s : ServerLoops) (events : List (Nat × Events)) (hc : s.conns i = some c) :
    (s.setHeap (EPollPoller.revised events s.heap)).conns i =
      some (withRevents c ((events.lookup i).getD c.conn.channel.revents)) := by
  rw [setHeap_conns, hc]
  rfl

theorem of_setHeap_some {events : List (Nat × Events)} {d : ServerConnection}
    (hd : (s.setHeap (EPollPoller.revised events s.heap)).conns i = some d) :
    ∃ c revents, s.conns i = some c ∧ withRevents c revents = d := by
  rw [setHeap_conns] at hd
  obtain ⟨c, hc, rfl⟩ := Option.map_eq_some_iff.mp hd
  exact ⟨c, _, hc, rfl⟩

theorem Sound.setHeap (hs : Sound hand s) (events : List (Nat × Events)) :
    Sound hand (s.setHeap (EPollPoller.revised events s.heap)) := by
  have hsome : ∀ i, ((s.setHeap (EPollPoller.revised events s.heap)).conns i).isSome =
      (s.conns i).isSome := by
    intro i
    rw [setHeap_conns, Option.isSome_map]
  refine ⟨?_, ?_, ?_, ⟨?_, hs.rounds.idle⟩, ⟨?_, ?_⟩,
    ⟨?_, hs.named.nextConnId, hs.named.ipPort, ?_, ?_⟩⟩
  · intro i d hd
    obtain ⟨c, revents, hc, rfl⟩ := of_setHeap_some hd
    obtain ⟨stage, hlives⟩ := hs.lives i c hc
    refine ⟨stage, hlives.ptr, hlives.established, hlives.closeCalls, hlives.removed,
      hlives.destroyed, hlives.told, ?_, hlives.tracks, hlives.hops, hlives.others⟩
    have hholds := hlives.holds
    cases stage <;> exact hholds
  · intro l f hpos
    rw [hsome]
    exact hs.known l f hpos
  · intro e he
    obtain ⟨hserves, c, hc, hestablished⟩ := hs.calls e he
    exact ⟨hserves, _, setHeap_some s events hc, hestablished⟩
  · intro l callbacks hl
    obtain ⟨hknown, hnodup⟩ := hs.rounds.handling l callbacks hl
    refine ⟨?_, hnodup⟩
    intro e he
    obtain ⟨c, hc, hioLoop, hestablished, hopen⟩ := hknown e he
    exact ⟨_, setHeap_some s events hc, hioLoop, hestablished, hopen⟩
  · intro i j d d' hd hd'
    obtain ⟨c, revents, hc, rfl⟩ := of_setHeap_some hd
    obtain ⟨c', revents', hc', rfl⟩ := of_setHeap_some hd'
    exact hs.wired.fds i j c c' hc hc'
  · intro l fd henters
    obtain ⟨i, c, hc, hl, hfd, hdestroyed⟩ := hs.wired.owned l fd henters
    exact ⟨i, _, setHeap_some s events hc, hl, hfd, hdestroyed⟩
  · intro i
    rw [hsome]
    exact hs.named.accepted i
  · intro i d hd
    obtain ⟨c, revents, hc, rfl⟩ := of_setHeap_some hd
    exact hs.named.name i c hc
  · intro name i
    refine (hs.named.connections name i).trans ⟨?_, ?_⟩
    · rintro ⟨c, hc, hname, hremoved⟩
      exact ⟨_, setHeap_some s events hc, hname, hremoved⟩
    · rintro ⟨d, hd, hname, hremoved⟩
      obtain ⟨c, revents, hc, rfl⟩ := of_setHeap_some hd
      exact ⟨c, hc, hname, hremoved⟩

/-! ### The callbacks of a poll -/

/-- The callbacks of the channel of connection `i`. -/
def found (heap : Nat → Option Channel) (i : Nat) : List (Nat × ChannelCallback) :=
  (heap i).elim [] fun c => (Channel.called c.revents).map fun k => (i, k)

theorem eq_of_mem_found {heap : Nat → Option Channel} {e : Nat × ChannelCallback}
    (h : e ∈ found heap i) : e.1 = i := by
  unfold found at h
  cases hi : heap i with
  | none => simp [hi] at h
  | some c =>
    rw [hi, Option.elim_some] at h
    obtain ⟨k, -, rfl⟩ := List.mem_map.mp h
    rfl

theorem nodup_found {heap : Nat → Option Channel} {active : List Nat} (hactive : active.Nodup)
    (hevents : ∀ i ∈ active, ∀ c ∈ heap i,
      c.revents.has (POLLPRI ||| POLLRDHUP) = true → c.revents.has POLLIN = true) :
    (((active.flatMap (found heap)).filter fun e => mayClose e.2).map Prod.fst).Nodup := by
  rw [List.filter_flatMap, List.map_flatMap, List.nodup_flatMap]
  constructor
  · intro i hi
    have hlength : (((found heap i).filter fun e => mayClose e.2).map Prod.fst).length ≤ 1 := by
      cases hc : heap i with
      | none => simp [found, hc]
      | some c =>
        rw [found, hc, Option.elim_some, List.filter_map, List.length_map, List.length_map]
        exact Channel.length_mayClose_le (hevents i hi c hc)
    exact List.nodup_iff_count_le_one.mpr fun j => List.count_le_length.trans hlength
  · refine hactive.imp ?_
    intro i j hne k hi hj
    obtain ⟨e, he, rfl⟩ := List.mem_map.mp hi
    obtain ⟨e', he', hsame⟩ := List.mem_map.mp hj
    apply hne
    rw [← eq_of_mem_found (List.mem_of_mem_filter he), ← hsame]
    exact eq_of_mem_found (List.mem_of_mem_filter he')

theorem Sound.poll (hs : Sound none s) (hp : s.places l = .polling) {size : Nat}
    {ready : List (Nat × Events)} (hkernel : KernelKeeps s (.poll l size ready)) :
    ∃ t, s.poll l size ready = .ok t ∧ Sound none t := by
  obtain ⟨hready, hpri⟩ := hkernel
  obtain ⟨size', hpoll⟩ := (hs.leads l).poll hready size
  have hnodup := (hs.leads l).nodup_epollWait hready size
  have hmem : ∀ {e}, e ∈ (s.loops l).poller.epollWait size ready → _ := EPollPoller.epollWait_mem
  generalize (s.loops l).poller.epollWait size ready = events at hpoll hnodup hmem
  have hfound : ∀ i ∈ events.map Prod.fst, ∃ fd revents, (fd, revents) ∈ ready ∧
      events.lookup i = some revents ∧ ∃ c, s.conns i = some c ∧ c.ioLoop = l ∧
        Lives none s i c .up := by
    intro i hi
    cases hlookup : events.lookup i with
    | none =>
      rw [List.lookup_eq_none_iff] at hlookup
      obtain ⟨e, he, rfl⟩ := List.mem_map.mp hi
      simpa using hlookup e he
    | some revents =>
      obtain ⟨before, after, rfl, -⟩ := List.lookup_eq_some_iff.mp hlookup
      obtain ⟨fd, interest, hr, hentry⟩ := hmem (e := (i, revents)) (by simp)
      obtain ⟨c, hc, hioLoop, -, -, hlives⟩ := hs.interest hentry
      exact ⟨fd, revents, hr, rfl, c, hc, hioLoop, hlives⟩
  refine ⟨_, by rw [ServerLoops.poll, hpoll, ok_bind]; rfl, ?_⟩
  refine (hs.setHeap events).goTo rfl ?_ ⟨?_, nodup_found hnodup ?_⟩
  · simp [queued, setPlace, setLoop, ServerLoops.setHeap, hp]
  · intro e he
    obtain ⟨i, hi, he⟩ := List.mem_flatMap.mp he
    obtain ⟨-, -, -, -, c, hc, hioLoop, hlives⟩ := hfound i hi
    rw [eq_of_mem_found he]
    exact ⟨_, setHeap_some s events hc, hioLoop, hlives.established, fun _ => hlives.closeCalls⟩
  · intro i hi c hc hhas
    obtain ⟨fd, revents, hr, hlookup, -⟩ := hfound i hi
    obtain ⟨c₀, -, rfl⟩ := Option.map_eq_some_iff.mp hc
    rw [hlookup, Option.getD_some] at hhas ⊢
    exact hpri _ hr hhas

end ServerLoops

end Mymuduo
