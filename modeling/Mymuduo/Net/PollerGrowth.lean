import Mathlib.Algebra.Group.Nat.Defs
import Mathlib.Data.List.Perm.Subperm
import Mymuduo.Net.Registration

/-! A poll reports no more channels than `events_` has room for.  When the room is used up the poller
doubles it, so that among finitely many channels only a few polls leave out a channel that is watched
and ready. -/

namespace Mymuduo

open Lib

namespace EPollPoller

/-- What `epoll_wait` would find if it had room for all of it. -/
def found (p : EPollPoller) (ready : List (Nat × Events)) : List (Nat × Events) :=
  p.epollWait ready.length ready

theorem epollWait_eq_take (p : EPollPoller) (size : Nat) (ready : List (Nat × Events)) :
    p.epollWait size ready = (p.found ready).take size := by
  have hall := List.length_filterMap_le
    (fun r : Nat × Events => (p.interest r.1).map fun entry => (entry.1, r.2)) ready
  rw [found, epollWait, epollWait, List.take_of_length_le hall]

/-- The room after a poll. -/
theorem poll_size {p : EPollPoller} {size size' : Nat} {ready : List (Nat × Events)}
    {heap heap' : Nat → Option Channel} {activeChannels : List Nat} (hsize : 0 < size)
    (h : p.poll size ready heap = .ok (size', heap', activeChannels)) :
    size' = if size ≤ (p.found ready).length then size * 2 else size := by
  have hlength : (p.epollWait size ready).length = min size (p.found ready).length := by
    rw [epollWait_eq_take, List.length_take]
  unfold poll at h
  dsimp only at h
  split at h
  · obtain ⟨⟨heap'', active⟩, -, h⟩ := bind_eq_ok.mp h
    cases h
    apply if_congr _ rfl rfl
    omega
  · cases h
    rw [if_neg (by omega)]

end EPollPoller

namespace Registration

variable {φ : Type} {s t : Registration φ}

/-- What the kernel has registered leads to a channel that is known. -/
theorem Registered.leads (h : Registered s) : s.loop.poller.Leads s.heap := by
  rintro fd ⟨ptr, events⟩ hinterest
  obtain ⟨c, hc, rfl⟩ := h.owned fd ptr events hinterest
  refine ⟨?_, c, hc, rfl⟩
  have htracks := h.tracks ptr c hc
  unfold EPollPoller.Tracks at htracks
  split at htracks
  · cases htracks.2.symm.trans hinterest
  · rw [htracks.1, h.at_address ptr c hc]
  · cases htracks.2.symm.trans hinterest

/-- The poll leaves out a channel that is watched and ready. -/
def missed (s : Registration φ) : Step → List Step
  | .poll ready =>
    match step s (.poll ready) with
    | .ok t =>
      if t.loop.activeChannels = (s.loop.poller.found ready).map Prod.fst then [] else [.poll ready]
    | .error _ => []
  | .call .. | .handleEvents _ => []

/-- A call that is allowed, or a poll that finds a descriptor once. -/
def Reports (s : Registration φ) (b : Step) : Prop :=
  Allowed s b ∧ ∀ ready, b = .poll ready → (ready.map Prod.fst).Nodup

/-- The room has been doubled by each of the polls that have left something out, and each of them has
found more channels than it had room for. -/
structure Doubled (addresses : List Nat) (s : Registration φ) (polls : List Step) : Prop where
  registered : Registered s
  known : ∀ a c, s.heap a = some c → a ∈ addresses
  room : EPollPoller.kInitEventListSize * 2 ^ polls.length ≤ s.size
  few : polls ≠ [] → EPollPoller.kInitEventListSize * 2 ^ (polls.length - 1) < addresses.length

theorem Doubled.found_le {addresses : List Nat} {polls : List Step} {ready : List (Nat × Events)}
    (h : Doubled addresses s polls) (hready : (ready.map Prod.fst).Nodup) :
    (s.loop.poller.found ready).length ≤ addresses.length := by
  have hnodup := h.registered.leads.nodup_epollWait hready ready.length
  have hsubset : (s.loop.poller.found ready).map Prod.fst ⊆ addresses := by
    intro a ha
    obtain ⟨event, hevent, rfl⟩ := List.mem_map.mp ha
    obtain ⟨fd, interest, -, hentry⟩ := EPollPoller.epollWait_mem hevent
    obtain ⟨-, c, hc, -⟩ := h.registered.leads fd _ hentry
    exact h.known _ c hc
  have hle := (hnodup.subperm hsubset).length_le
  rwa [List.length_map] at hle

/-- What a step that returns a poll's result has done. -/
theorem poll_spec {ready : List (Nat × Events)} (h : Registered s)
    (hready : (ready.map Prod.fst).Nodup) (hsize : 0 < s.size)
    (ht : step s (.poll ready) = .ok t) :
    t.size = (if s.size ≤ (s.loop.poller.found ready).length then s.size * 2 else s.size) ∧
      t.loop.activeChannels = ((s.loop.poller.found ready).take s.size).map Prod.fst ∧
      ∀ a c, t.heap a = some c → ∃ d, s.heap a = some d := by
  obtain ⟨⟨size, heap, activeChannels⟩, hpoll, ht⟩ := bind_eq_ok.mp ht
  cases ht
  have hgrows := EPollPoller.poll_size hsize hpoll
  obtain ⟨size', hpoll'⟩ := h.leads.poll hready s.size
  rw [hpoll'] at hpoll
  cases hpoll
  refine ⟨hgrows, by rw [EPollPoller.epollWait_eq_take], ?_⟩
  intro a c hc
  obtain ⟨d, hd, -⟩ := Option.map_eq_some_iff.mp hc
  exact ⟨d, hd⟩

theorem Doubled.poll {addresses : List Nat} {polls : List Step} {ready : List (Nat × Events)}
    (h : Doubled addresses s polls) (hready : (ready.map Prod.fst).Nodup) (hregistered : Registered t)
    (ht : step s (.poll ready) = .ok t) :
    Doubled addresses t (polls ++ missed s (.poll ready)) := by
  have hroom := h.room
  have hpos : 0 < EPollPoller.kInitEventListSize * 2 ^ polls.length :=
    Nat.mul_pos (by decide) (Nat.two_pow_pos _)
  obtain ⟨hsize, hactive, hheap⟩ := poll_spec h.registered hready (by omega) ht
  have hknown : ∀ a c, t.heap a = some c → a ∈ addresses := by
    intro a c hc
    obtain ⟨d, hd⟩ := hheap a c hc
    exact h.known a d hd
  have hfound := h.found_le hready
  by_cases hfits : (s.loop.poller.found ready).length ≤ s.size
  · have hall : missed s (.poll ready) = [] := by
      rw [missed, ht]
      exact if_pos (by rw [hactive, List.take_of_length_le hfits])
    rw [hall, List.append_nil]
    refine ⟨hregistered, hknown, ?_, h.few⟩
    rw [hsize]
    split <;> omega
  · have hshort : missed s (.poll ready) = [.poll ready] := by
      rw [missed, ht]
      refine if_neg ?_
      intro heq
      have hlength := congrArg List.length (hactive.symm.trans heq)
      rw [List.length_map, List.length_map, List.length_take] at hlength
      omega
    rw [hshort]
    constructor
    · exact hregistered
    · exact hknown
    · rw [List.length_append, List.length_singleton, Nat.pow_succ, ← Nat.mul_assoc, hsize,
        if_pos (by omega)]
      omega
    · intro _
      rw [List.length_append, List.length_singleton, Nat.add_sub_cancel]
      omega

theorem Doubled.step {addresses : List Nat} {polls : List Step} {b : Step}
    (h : Doubled addresses s polls) (hb : Reports s b) (ht : step s b = .ok t) :
    Doubled addresses t (polls ++ missed s b) := by
  have hregistered : Registered t := by
    obtain ⟨t', ht', hregistered⟩ | ⟨hfault, -⟩ := registered_step h.registered hb.1
    · cases ht.symm.trans ht'
      exact hregistered
    · cases ht.symm.trans hfault
  cases b with
  | poll ready => exact h.poll (hb.2 ready rfl) hregistered ht
  | call f a =>
    rw [missed, List.append_nil]
    cases hc : s.heap a with
    | none =>
      rw [Registration.step, hc] at ht
      cases ht
      exact h
    | some c =>
      rw [step_call hc] at ht
      obtain ⟨⟨c', l'⟩, hcall, ht⟩ := bind_eq_ok.mp ht
      cases ht
      refine ⟨hregistered, ?_, h.room, h.few⟩
      intro b d hd
      obtain ⟨rfl, -⟩ | ⟨-, hd⟩ := update_some_eq_some.mp hd
      · exact h.known b c hc
      · exact h.known b d hd
  | handleEvents eventHandling =>
    rw [missed, List.append_nil]
    cases ht
    exact ⟨hregistered, h.known, h.room, h.few⟩

/-- In every run of calls on the channels of a loop and of polls, the polls that leave out a channel
that is watched and ready are few: each of them has doubled the room, which was less than the number
of the channels. -/
theorem polls_catch_up (d : Descriptors) (addresses : List Nat)
    (hchannels : ∀ a, (d.fd a).isSome = true → a ∈ addresses) (steps : List Step)
    (hreports : Along step Reports (start d : Registration φ) steps)
    (hrun : run step (start d) steps = .ok t) :
    let polls := trace step missed (start d : Registration φ) steps
    polls = [] ∨ EPollPoller.kInitEventListSize * 2 ^ (polls.length - 1) < addresses.length := by
  intro polls
  have hstart : Doubled addresses (start d : Registration φ) [] := by
    refine ⟨registered_start d, ?_, le_rfl, fun hne => absurd rfl hne⟩
    intro a c hc
    obtain ⟨fd, hfd, -⟩ := Option.map_eq_some_iff.mp hc
    exact hchannels a (by rw [hfd]; rfl)
  have hdoubled : Doubled addresses t ([] ++ polls) :=
    hreports.trace_invariant (fun _ _ _ _ h hb ht => h.step hb ht) hstart hrun
  rw [List.nil_append] at hdoubled
  by_cases hnone : polls = []
  · exact .inl hnone
  · exact .inr (hdoubled.few hnone)

/-- Twenty channels, with the descriptors from 3 on. -/
def twentyDescriptors : Descriptors where
  fd a := if a < 20 then some (a + 3) else none
  distinct := by
    intro a b n ha hb
    split at ha <;> split at hb <;> simp_all
    omega

instance (s : Registration φ) : (b : Step) → Decidable (Reports s b)
  | .poll ready => decidable_of_iff (ready.map Prod.fst).Nodup
      ⟨fun h => ⟨trivial, by rintro _ ⟨⟩; exact h⟩, fun h => h.2 ready rfl⟩
  | .call f a => decidable_of_iff (Allowed s (.call f a)) ⟨fun h => ⟨h, nofun⟩, And.left⟩
  | .handleEvents _ => .isTrue ⟨trivial, nofun⟩

/-- All of them are ready in two polls, and the first one reports sixteen. -/
def twentyReady : List Step :=
  let ready := (List.range 20).map fun a => (a + 3, POLLIN)
  (List.range 20).map (fun a => .call .enableReading a) ++ [.poll ready, .poll ready]

theorem polls_catch_up_twenty :
    let polls := trace step missed (start twentyDescriptors : Registration Unit) twentyReady
    polls.length = 1 ∧ (polls = [] ∨ 16 * 2 ^ (polls.length - 1) < 20) := by
  have hrun : (run step (start twentyDescriptors : Registration Unit) twentyReady).map
      (fun t => t.size) = .ok 32 := by decide +kernel
  cases ht : run step (start twentyDescriptors : Registration Unit) twentyReady with
  | error f =>
    rw [ht] at hrun
    cases hrun
  | ok t =>
    refine ⟨by decide +kernel, ?_⟩
    refine polls_catch_up twentyDescriptors (List.range 20) ?_ twentyReady (by decide +kernel) ht
    intro a ha
    rw [List.mem_range]
    by_contra hge
    simp [twentyDescriptors, hge] at ha

end Registration

end Mymuduo
