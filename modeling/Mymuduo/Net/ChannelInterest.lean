import Mymuduo.Net.Registration

/-! Channels without interest.  `updateChannel` takes a channel out of the interest set when a change
leaves it without interest, but only one that is in it; one that is new or was taken out before is
added, with an empty mask, and its errors and hang-ups are reported. -/

namespace Mymuduo

open Lib

namespace EPollPoller

/-- A poll returns only channels that are registered. -/
theorem poll_active {p : EPollPoller} {size a : Nat} {ready : List (Nat × Events)}
    {heap : Nat → Option Channel} {r : Nat × (Nat → Option Channel) × List Nat}
    (h : p.poll size ready heap = .ok r) (ha : a ∈ r.2.2) :
    ∃ fd events, p.interest fd = some (a, events) := by
  dsimp only [poll] at h
  split at h
  · obtain ⟨⟨heap', active⟩, hfill, h⟩ := bind_eq_ok.mp h
    obtain ⟨u, -, hfill⟩ := bind_eq_ok.mp hfill
    obtain ⟨heap'', -, hfill⟩ := bind_eq_ok.mp hfill
    cases hfill
    cases h
    obtain ⟨event, hevent, rfl⟩ := List.mem_map.mp ha
    obtain ⟨fd, events, -, hinterest⟩ := epollWait_mem hevent
    exact ⟨fd, events, hinterest⟩
  · cases h
    cases ha

/-- A poll writes nothing to a channel but `revents_`. -/
theorem poll_frame {p : EPollPoller} {size : Nat} {ready : List (Nat × Events)}
    {heap : Nat → Option Channel} {r : Nat × (Nat → Option Channel) × List Nat}
    (h : p.poll size ready heap = .ok r) {a : Nat} {c : Channel} (hc : r.2.1 a = some c) :
    ∃ d, heap a = some d ∧ c = { d with revents := c.revents } := by
  dsimp only [poll] at h
  split at h
  · obtain ⟨⟨heap', active⟩, hfill, h⟩ := bind_eq_ok.mp h
    obtain ⟨u, -, hfill⟩ := bind_eq_ok.mp hfill
    obtain ⟨heap'', hrun, hfill⟩ := bind_eq_ok.mp hfill
    cases hfill
    cases h
    refine run_invariant (I := fun heap' => ∀ a c, heap' a = some c →
      ∃ d, heap a = some d ∧ c = { d with revents := c.revents }) ?_
      (fun a c hc => ⟨c, hc, rfl⟩) hrun a c hc
    intro v event w hv hw b e he
    unfold fillActiveChannel at hw
    split at hw
    · cases hw
    · rename_i e' he'
      obtain ⟨u, -, hw⟩ := bind_eq_ok.mp hw
      cases hw
      rcases update_some_eq_some.mp he with ⟨rfl, rfl⟩ | ⟨-, he⟩
      · obtain ⟨d, hd, hsame⟩ := hv _ e' he'
        exact ⟨d, hd, by rw [hsame]⟩
      · exact hv b e he
  · cases h
    exact ⟨c, hc, rfl⟩

end EPollPoller

namespace Registration

variable {φ : Type}

/-- The interest set holds the channel's descriptor exactly while the channel has an interest, and
without one no poll returns it. -/
structure Watched (s : Registration φ) (c : Channel) : Prop where
  interest : (s.loop.poller.interest c.fd).isSome = true ↔ c.events ≠ Channel.kNoneEvent
  quiet : c.events = Channel.kNoneEvent → ∀ ready r,
    s.loop.poller.poll s.size ready s.heap = .ok r → c.ptr ∉ r.2.2

def AllWatched (s : Registration φ) : Prop := ∀ a c, s.heap a = some c → Watched s c

/-- A call that leaves a channel without interest finds it with one. -/
def NotRedundant (s : Registration φ) : Step → Prop
  | .call f a => ∀ c ∈ s.heap a,
    f.interest c.events = Channel.kNoneEvent → c.events ≠ Channel.kNoneEvent
  | _ => True

instance (s : Registration φ) (b : Step) : Decidable (NotRedundant s b) :=
  match b with
  | .call _ a => inferInstanceAs (Decidable (∀ c ∈ s.heap a, _ → _))
  | .poll _ | .handleEvents _ => .isTrue trivial

variable {s t : Registration φ} {c : Channel} {a : Nat}

theorem interest_iff_added {p : EPollPoller} (h : p.Tracks c) :
    (p.interest c.fd).isSome = true ↔ c.index = .kAdded := by
  unfold EPollPoller.Tracks at h
  split at h <;> simp_all

/-- What the interest set says decides what a poll returns. -/
theorem Registered.watched_iff (h : Registered s) (hc : s.heap a = some c) :
    Watched s c ↔ ((s.loop.poller.interest c.fd).isSome = true ↔ c.events ≠ Channel.kNoneEvent) := by
  refine ⟨Watched.interest, fun hinterest => ⟨hinterest, ?_⟩⟩
  intro hnone ready r hpoll hactive
  obtain ⟨fd, events, hentry⟩ := EPollPoller.poll_active hpoll hactive
  obtain ⟨d, hd, hfd⟩ := h.owned fd c.ptr events hentry
  rw [h.at_address a c hc, hc] at hd
  cases hd
  rw [hfd, hentry] at hinterest
  exact hinterest.mp rfl hnone

/-- What a call makes of a channel. -/
theorem Registered.call_exact (h : Registered s) (hc : s.heap a = some c) {f : ChannelCall}
    (hf : f ≠ .remove) :
    ∃ c' l', step s (.call f a) =
        .ok { s with loop := l', heap := Function.update s.heap a (some c') } ∧
      Registered { s with loop := l', heap := Function.update s.heap a (some c') } ∧
      EPollPoller.SameBut c.fd s.loop.poller l'.poller ∧ l'.poller.Tracks c' ∧
      c'.events = f.interest c.events ∧
      (c'.index = .kAdded ↔ ¬(c.index = .kAdded ∧ c'.events = Channel.kNoneEvent)) := by
  obtain ⟨q, index, hupdate, hindex, htracks, hsame⟩ :=
    Channel.update_exact (h.tracks a c hc) (f.interest c.events)
  refine ⟨{ c with events := f.interest c.events, addedToLoop := true, index := index },
    { s.loop with poller := q }, ?_, ?_, hsame, htracks, rfl, ?_⟩
  · rw [step_call hc, ChannelCall.call_eq_update hf, hupdate]
    rfl
  · exact h.set hc rfl rfl htracks hsame
  · dsimp only
    rw [hindex]
    split <;> simp_all

/-- A call keeps all channels watched exactly if it is not redundant. -/
theorem call_watched_iff (h : Registered s) (hwatched : AllWatched s) {f : ChannelCall}
    (hf : f ≠ .remove) :
    ∃ t, step s (.call f a) = .ok t ∧ Registered t ∧
      (AllWatched t ↔ NotRedundant s (.call f a)) := by
  cases hc : s.heap a with
  | none => exact ⟨s, by rw [step, hc], h, fun _ => by simp [NotRedundant, hc], fun _ => hwatched⟩
  | some c =>
    obtain ⟨c', l', hstep, hregistered, hsame, htracks, hevents, hadded⟩ := h.call_exact hc hf
    refine ⟨_, hstep, hregistered, ?_⟩
    have hself : Function.update s.heap a (some c') a = some c' := Function.update_self ..
    have hold := (interest_iff_added (h.tracks a c hc)).symm.trans (hwatched a c hc).interest
    have hnew := hregistered.watched_iff hself
    rw [interest_iff_added htracks, hadded, hold, hevents] at hnew
    constructor
    · intro hall d hd hnone
      obtain rfl := Option.some.inj (hc.symm.trans hd)
      intro hempty
      exact (hnew.mp (hall a c' hself)).mp (fun hboth => hboth.1 hempty) hnone
    · intro hneeded b d hd
      rcases update_some_eq_some.mp hd with ⟨rfl, rfl⟩ | ⟨hb, hd'⟩
      · have hinterest := hneeded c hc
        exact hnew.mpr ⟨fun hboth hnone => hboth ⟨hinterest hnone, hnone⟩,
          fun hnone hboth => hnone hboth.2⟩
      · have hne : d.fd ≠ c.fd := fun heq => hb (h.distinct b a d c hd' hc heq)
        rw [hregistered.watched_iff hd, (hsame d.fd hne).2]
        exact (hwatched b d hd').interest

theorem poll_watched (h : Registered s) (hwatched : AllWatched s) (ready : List (Nat × Events)) :
    ∃ t, step s (.poll ready) = .ok t ∧ Registered t ∧ AllWatched t := by
  obtain ⟨size, heap, activeChannels, hpoll, hregistered⟩ := h.poll ready
  have hregistered' : Registered
      { s with loop := { s.loop with activeChannels := activeChannels }, heap := heap, size := size } :=
    ⟨hregistered.at_address, hregistered.distinct, hregistered.tracks, hregistered.owned⟩
  refine ⟨_, by rw [step, hpoll]; rfl, hregistered', ?_⟩
  intro a c hc
  obtain ⟨d, hd, hsame⟩ := EPollPoller.poll_frame hpoll hc
  rw [hregistered'.watched_iff hc, hsame]
  exact (hwatched a d hd).interest

/-- A step other than `remove`. -/
def KeepsRegistered : Step → Prop
  | .call f _ => f ≠ .remove
  | _ => True

instance : DecidablePred KeepsRegistered
  | .call f _ => inferInstanceAs (Decidable (f ≠ .remove))
  | .poll _ | .handleEvents _ => .isTrue trivial

theorem step_watched_iff (h : Registered s) (hwatched : AllWatched s) {b : Step}
    (hb : KeepsRegistered b) :
    ∃ t, step s b = .ok t ∧ Registered t ∧ (AllWatched t ↔ NotRedundant s b) := by
  cases b with
  | call f a => exact call_watched_iff h hwatched hb
  | poll ready =>
    obtain ⟨t, ht, hregistered, hwatched'⟩ := poll_watched h hwatched ready
    exact ⟨t, ht, hregistered, fun _ => trivial, fun _ => hwatched'⟩
  | handleEvents eventHandling =>
    have hregistered : Registered { s with loop := { s.loop with eventHandling := eventHandling } } :=
      ⟨h.at_address, h.distinct, h.tracks, h.owned⟩
    refine ⟨_, rfl, hregistered, fun _ => trivial, fun _ => ?_⟩
    intro a c hc
    exact (hregistered.watched_iff hc).mpr (hwatched a c hc).interest

theorem allWatched_start (d : Descriptors) : AllWatched (start d : Registration φ) := by
  intro a c hc
  rw [(registered_start d).watched_iff hc]
  obtain ⟨fd, -, rfl⟩ := Option.map_eq_some_iff.mp hc
  simp [start, EventLoop.new, EPollPoller.new, Channel.new]

theorem watched_prefixes_iff (d : Descriptors) (steps : List Step) :
    (∀ before after, steps = before ++ after →
      ∀ t : Registration φ, run step (start d) before = .ok t →
        AllWatched t ∧ ∀ b rest, after = b :: rest → KeepsRegistered b) ↔
      Along step (fun (s : Registration φ) b => NotRedundant s b ∧ KeepsRegistered b)
        (start d) steps := by
  refine along_iff_prefixes (I := fun s => Registered s ∧ AllWatched s) ?_ (fun _ hI => hI.2)
    (fun _ _ _ hb => hb.2) ?_ ⟨registered_start d, allWatched_start d⟩
  · rintro s b t ⟨h, hwatched⟩ ⟨hneeded, hb⟩ ht
    obtain ⟨t', ht', hregistered, hiff⟩ := step_watched_iff h hwatched hb
    cases ht.symm.trans ht'
    exact ⟨hregistered, hiff.mpr hneeded⟩
  · rintro s b ⟨h, hwatched⟩ hb hQ
    obtain ⟨t, ht, -, hiff⟩ := step_watched_iff h hwatched hb
    exact ⟨hiff.mp (hQ t ht), hb⟩

/-- Under any calls on the channels but `remove`, in any order: the interest set holds the descriptors
of just those channels that have an interest, after every call, exactly when no call that leaves a
channel without interest finds it without one. -/
theorem watched_iff_interest (d : Descriptors) (steps : List Step)
    (hkeeps : ∀ b ∈ steps, KeepsRegistered b) :
    (∀ before after, steps = before ++ after →
      ∀ t : Registration φ, run step (start d) before = .ok t → AllWatched t) ↔
      Along step NotRedundant (start d : Registration φ) steps := by
  constructor
  · intro h
    refine ((watched_prefixes_iff d steps).mp ?_).mono fun _ _ hb => hb.1
    rintro before after rfl t ht
    refine ⟨h before after rfl t ht, ?_⟩
    rintro b rest rfl
    exact hkeeps b (by simp)
  · intro h before after hsteps t ht
    refine ((watched_prefixes_iff d steps).mpr ?_ before after hsteps t ht).1
    rw [along_iff] at h ⊢
    intro before b after hsteps t ht
    exact ⟨h before b after hsteps t ht, hkeeps b (by simp [hsteps])⟩

/-- Interest comes and goes twice. -/
theorem watched_iff_interest_twice :
    let steps : List Step := [.call .enableReading 0, .call .enableWriting 0,
      .call .disableReading 0, .call .disableWriting 0, .call .enableReading 0, .call .disableAll 0]
    ∀ before after, steps = before ++ after →
      ∀ t : Registration Unit, run step (start twoDescriptors) before = .ok t → AllWatched t :=
  (watched_iff_interest twoDescriptors _ (by decide)).mpr (by decide)

/-- `disableAll` on a channel that was never enabled: its descriptor is added with an empty mask, and
a hang-up is dispatched to it. -/
theorem disabled_channel_watched : ∃ (t : Registration Unit) (c : Channel),
    run step (start twoDescriptors) [.call .disableAll 0] = .ok t ∧ t.heap 0 = some c ∧
    c.events = Channel.kNoneEvent ∧ (t.loop.poller.interest c.fd).isSome = true ∧ ¬AllWatched t ∧
    ∃ r, t.loop.poller.poll t.size [(c.fd, POLLHUP)] t.heap = .ok r ∧ c.ptr ∈ r.2.2 := by
  have heval : (run step (start twoDescriptors : Registration Unit) [.call .disableAll 0] >>= fun t =>
      t.loop.poller.poll t.size [(5, POLLHUP)] t.heap >>= fun r =>
        .ok ((t.heap 0).map fun c => (c.ptr, c.fd, c.events), t.loop.poller.interest 5, r.2.2)) =
      .ok (some (0, 5, Channel.kNoneEvent), some (0, Channel.kNoneEvent), [0]) := by decide +kernel
  obtain ⟨t, ht, heval⟩ := bind_eq_ok.mp heval
  obtain ⟨r, hr, heval⟩ := bind_eq_ok.mp heval
  simp only [Except.ok.injEq, Prod.mk.injEq] at heval
  obtain ⟨hheap, hinterest, hactive⟩ := heval
  obtain ⟨c, hc, heq⟩ := Option.map_eq_some_iff.mp hheap
  simp only [Prod.mk.injEq] at heq
  obtain ⟨hptr, hfd, hevents⟩ := heq
  have hsome : (t.loop.poller.interest c.fd).isSome = true := by rw [hfd, hinterest]; rfl
  refine ⟨t, c, ht, hc, hevents, hsome, ?_, r, by rw [hfd]; exact hr, by rw [hptr, hactive]; simp⟩
  intro hall
  exact (hall 0 c hc).interest.mp hsome hevents

end Registration

end Mymuduo
