import Mymuduo.Lib.Table
import Mymuduo.Net.EventLoop

/-! Registration: any set of channels of one loop, under calls on them in any order, between the
rounds of its poller.  A channel's index, the map of the poller and the kernel's interest set say the
same about it after every call, whatever was called before. -/

namespace Mymuduo

open Lib

/-- The descriptors of a set of channels, by the addresses of the channels. -/
structure Descriptors where
  fd : Nat → Option Nat
  distinct : ∀ a b n, fd a = some n → fd b = some n → a = b

/-- The calls that change how a channel is registered. -/
inductive ChannelCall
  | enableReading
  | disableReading
  | enableWriting
  | disableWriting
  | disableAll
  | remove
  deriving DecidableEq, Repr

namespace ChannelCall

variable {φ : Type}

def call (f : ChannelCall) (c : Channel) (l : EventLoop φ) :
    Except Fault (Channel × EventLoop φ) :=
  match f with
  | .enableReading => c.enableReading l
  | .disableReading => c.disableReading l
  | .enableWriting => c.enableWriting l
  | .disableWriting => c.disableWriting l
  | .disableAll => c.disableAll l
  | .remove => c.remove l

/-- The interest with which the call reaches the poller. -/
def interest (f : ChannelCall) (events : Events) : Events :=
  match f with
  | .enableReading => events ||| Channel.kReadEvent
  | .disableReading => events &&& ~~~Channel.kReadEvent
  | .enableWriting => events ||| Channel.kWriteEvent
  | .disableWriting => events &&& ~~~Channel.kWriteEvent
  | .disableAll => events &&& Channel.kNoneEvent
  | .remove => events

/-- The operation with which the call reaches the kernel, if it does. -/
def operation (f : ChannelCall) (c : Channel) : Option EpollOperation :=
  match f with
  | .remove => EPollPoller.removeOperation c
  | _ => some (EPollPoller.updateOperation { c with events := f.interest c.events })

theorem call_eq_update {f : ChannelCall} (hf : f ≠ .remove) (c : Channel) (l : EventLoop φ) :
    f.call c l = Channel.update { c with events := f.interest c.events } l := by
  cases f with
  | remove => exact absurd rfl hf
  | _ => rfl

theorem operation_eq_update {f : ChannelCall} (hf : f ≠ .remove) (c : Channel) :
    f.operation c =
      some (EPollPoller.updateOperation { c with events := f.interest c.events }) := by
  cases f with
  | remove => exact absurd rfl hf
  | _ => rfl

/-- What reaches the kernel is one call of `epoll_ctl` with the operation `f.operation c`, made with
the interest set as the call found it, or nothing. -/
theorem call_calls {f : ChannelCall} {c c' : Channel} {l l' : EventLoop φ}
    (h : f.call c l = .ok (c', l')) :
    ∃ (p : EPollPoller) (d : Channel), p.interest = l.poller.interest ∧ d.fd = c.fd ∧
      match f.operation c with
      | none => l'.poller.interest = l.poller.interest
      | some operation => p.update operation d = .ok l'.poller := by
  by_cases hf : f = .remove
  · subst hf
    obtain ⟨u, -, h⟩ := bind_eq_ok.mp h
    obtain ⟨⟨d, m⟩, hm, h⟩ := bind_eq_ok.mp h
    cases h
    obtain ⟨-, p, hinterest, -, hq⟩ :=
      EPollPoller.removeChannel_calls (EventLoop.removeChannel_poller hm)
    refine ⟨p, c, hinterest, rfl, ?_⟩
    dsimp only [operation]
    cases hop : EPollPoller.removeOperation c with
    | none =>
      rw [hop] at hq
      exact (congrArg EPollPoller.interest hq).trans hinterest
    | some operation =>
      rw [hop] at hq
      exact hq
  · rw [call_eq_update hf] at h
    rw [operation_eq_update hf]
    obtain ⟨⟨p, d⟩, hp, h⟩ := bind_eq_ok.mp h
    cases h
    obtain ⟨p', hinterest, -, hupdate⟩ := EPollPoller.updateChannel_calls hp
    refine ⟨p', { c with events := f.interest c.events, addedToLoop := true }, hinterest, rfl, ?_⟩
    exact hupdate

/-- What a call leaves of a channel and of its loop. -/
structure Called (c : Channel) (l : EventLoop φ) (c' : Channel) (l' : EventLoop φ) : Prop where
  ptr_eq : c'.ptr = c.ptr
  fd_eq : c'.fd = c.fd
  loop_eq : l' = { l with poller := l'.poller }
  tracks : l'.poller.Tracks c'
  sameBut : EPollPoller.SameBut c.fd l.poller l'.poller

theorem call_spec {f : ChannelCall} {c : Channel} {l : EventLoop φ} (htracks : l.poller.Tracks c)
    (hremove : f = .remove → l.poller.hasChannel c = true ∧ c.isNoneEvent = true) :
    (∃ c' l', f.call c l = .ok (c', l') ∧ Called c l c' l') ∨
      f.call c l = .error (.assertion .loopRemoveChannel) ∧ l.eventHandling = true := by
  by_cases hf : f = .remove
  · subst hf
    obtain ⟨hknown, hnone⟩ := hremove rfl
    have hindex : c.index ≠ .kNew := by
      intro hnew
      simp only [EPollPoller.Tracks, hnew] at htracks
      simp [EPollPoller.hasChannel, htracks.1] at hknown
    by_cases hactive : l.eventHandling = true ∧ c.ptr ∈ l.activeChannels
    · right
      refine ⟨?_, hactive.1⟩
      rw [call, Channel.remove, hnone, check_true, ok_bind,
        EventLoop.removeChannel_active hactive.1 hactive.2]
      rfl
    · left
      obtain ⟨q, hq, htracks'⟩ := Channel.remove_spec htracks
        (by simpa [Channel.isNoneEvent] using hnone) hindex
        (fun hhandling hmem => hactive ⟨hhandling, hmem⟩)
      exact ⟨_, _, hq, rfl, rfl, rfl, htracks', Channel.remove_sameBut hq⟩
  · left
    rw [call_eq_update hf]
    obtain ⟨c', l', hcall, hupdated⟩ := Channel.update_spec htracks (f.interest c.events)
    exact ⟨c', l', hcall, hupdated.ptr_eq, hupdated.fd_eq, hupdated.loop_eq, hupdated.tracks,
      Channel.update_sameBut (c := { c with events := f.interest c.events }) hcall⟩

/-- The kernel accepts what a call on a tracked channel makes it do. -/
theorem operation_accepted {f : ChannelCall} {c : Channel} {p : EPollPoller} (h : p.Tracks c)
    {operation : EpollOperation} (hoperation : f.operation c = some operation) :
    p.Accepts operation c.fd := by
  obtain ⟨ptr, fd, events, revents, index, added, handling, tied⟩ := c
  by_cases hf : f = .remove
  · subst hf
    cases index with
    | kAdded =>
      cases hoperation
      simp [EPollPoller.Accepts, h.2]
    | kNew => cases hoperation
    | kDeleted => cases hoperation
  · rw [operation_eq_update hf] at hoperation
    cases hoperation
    cases index with
    | kNew => exact h.2
    | kDeleted => exact h.2
    | kAdded =>
      dsimp only [EPollPoller.updateOperation]
      split <;> simp [EPollPoller.Accepts, h.2]

end ChannelCall

/-- The channels of a loop, by address, with the loop and the room in its poller's `events_`. -/
structure Registration (φ : Type) where
  loop : EventLoop φ
  heap : Nat → Option Channel
  size : Nat

namespace Registration

variable {φ : Type}

def start (d : Descriptors) : Registration φ where
  loop := .new
  heap := fun a => (d.fd a).map (Channel.new a)
  size := EPollPoller.kInitEventListSize

/-- What happens to the channels: a call on one of them, a round of the poller, with the descriptors
that are ready in it, or a change of `eventHandling_`. -/
inductive Step
  | call (f : ChannelCall) (a : Nat)
  | poll (ready : List (Nat × Events))
  | handleEvents (eventHandling : Bool)
  deriving DecidableEq, Repr

def step (s : Registration φ) : Step → Except Fault (Registration φ)
  | .call f a =>
    match s.heap a with
    | none => .ok s
    | some c => do
      let (c, l) ← f.call c s.loop
      return { s with loop := l, heap := Function.update s.heap a (some c) }
  | .poll ready => do
    let (size, heap, activeChannels) ← s.loop.poller.poll s.size ready s.heap
    return { loop := { s.loop with activeChannels := activeChannels }, heap := heap, size := size }
  | .handleEvents eventHandling =>
    .ok { s with loop := { s.loop with eventHandling := eventHandling } }

theorem step_call {s : Registration φ} {f : ChannelCall} {a : Nat} {c : Channel}
    (hc : s.heap a = some c) :
    step s (.call f a) = f.call c s.loop >>= fun r =>
      .ok { s with loop := r.2, heap := Function.update s.heap a (some r.1) } := by
  rw [step, hc]
  rfl

/-- `remove` is called on registered channels without interest. -/
def Allowed (s : Registration φ) : Step → Prop
  | .call .remove a =>
    ∀ c ∈ s.heap a, s.loop.poller.hasChannel c = true ∧ c.isNoneEvent = true
  | _ => True

instance (s : Registration φ) (b : Step) : Decidable (Allowed s b) :=
  match b with
  | .call .remove a => inferInstanceAs (Decidable (∀ c ∈ s.heap a, _ ∧ _))
  | .call .enableReading _ | .call .disableReading _ | .call .enableWriting _
  | .call .disableWriting _ | .call .disableAll _ | .poll _ | .handleEvents _ => .isTrue trivial

/-- The call of `epoll_ctl` in a step, if there is one: its operation and its descriptor. -/
def ctl (s : Registration φ) : Step → Option (EpollOperation × Nat)
  | .call f a => (s.heap a).bind fun c => (f.operation c).map fun operation => (operation, c.fd)
  | _ => none

/-- The index of a channel says what the poller's map and the kernel's interest set hold. -/
structure Agrees (p : EPollPoller) (c : Channel) : Prop where
  new : c.index = .kNew ↔ p.channels c.fd = none
  added : c.index = .kAdded ↔
    p.channels c.fd = some c.ptr ∧ p.interest c.fd = some (c.ptr, c.events)
  deleted : c.index = .kDeleted → p.channels c.fd = some c.ptr ∧ p.interest c.fd = none

theorem agrees_of_tracks {p : EPollPoller} {c : Channel} (h : p.Tracks c) : Agrees p c := by
  unfold EPollPoller.Tracks at h
  split at h <;> constructor <;> simp_all

/-- Every channel is tracked, and the interest set holds nothing but channels. -/
structure Registered (s : Registration φ) : Prop where
  at_address : ∀ a c, s.heap a = some c → c.ptr = a
  distinct : ∀ a b c d, s.heap a = some c → s.heap b = some d → c.fd = d.fd → a = b
  tracks : ∀ a c, s.heap a = some c → s.loop.poller.Tracks c
  owned : ∀ fd ptr events, s.loop.poller.interest fd = some (ptr, events) →
    ∃ c, s.heap ptr = some c ∧ c.fd = fd

theorem registered_start (d : Descriptors) : Registered (start d : Registration φ) := by
  have hheap : ∀ a c, (start d : Registration φ).heap a = some c →
      ∃ fd, d.fd a = some fd ∧ c = Channel.new a fd := by
    intro a c h
    obtain ⟨fd, hfd, rfl⟩ := Option.map_eq_some_iff.mp h
    exact ⟨fd, hfd, rfl⟩
  constructor
  · intro a c h
    obtain ⟨fd, -, rfl⟩ := hheap a c h
    rfl
  · intro a b c e hc he hfd
    obtain ⟨n, hn, rfl⟩ := hheap a c hc
    obtain ⟨m, hm, rfl⟩ := hheap b e he
    exact d.distinct a b n hn (hm.trans (congrArg some (Eq.symm hfd)))
  · intro a c h
    obtain ⟨fd, -, rfl⟩ := hheap a c h
    exact ⟨rfl, rfl⟩
  · intro fd ptr events h
    cases h

/-- A channel changes, and the poller with it, but not at another descriptor. -/
theorem Registered.set {s : Registration φ} {a : Nat} {c c' : Channel} {l : EventLoop φ}
    (h : Registered s) (hc : s.heap a = some c) (hptr : c'.ptr = c.ptr) (hfd : c'.fd = c.fd)
    (htracks : l.poller.Tracks c') (hsame : EPollPoller.SameBut c.fd s.loop.poller l.poller) :
    Registered { s with loop := l, heap := Function.update s.heap a (some c') } := by
  constructor
  · intro b d hd
    obtain ⟨rfl, rfl⟩ | ⟨-, hd⟩ := update_some_eq_some.mp hd
    · exact hptr.trans (h.at_address b c hc)
    · exact h.at_address b d hd
  · intro b₁ b₂ d₁ d₂ hd₁ hd₂ heq
    have hfd' : ∀ b d, Function.update s.heap a (some c') b = some d →
        ∃ e, s.heap b = some e ∧ d.fd = e.fd := by
      intro b d hd
      obtain ⟨rfl, rfl⟩ | ⟨-, hd⟩ := update_some_eq_some.mp hd
      · exact ⟨c, hc, hfd⟩
      · exact ⟨d, hd, rfl⟩
    obtain ⟨e₁, he₁, hfd₁⟩ := hfd' b₁ d₁ hd₁
    obtain ⟨e₂, he₂, hfd₂⟩ := hfd' b₂ d₂ hd₂
    exact h.distinct b₁ b₂ e₁ e₂ he₁ he₂ (hfd₁.symm.trans (heq.trans hfd₂))
  · intro b d hd
    obtain ⟨rfl, rfl⟩ | ⟨hb, hd⟩ := update_some_eq_some.mp hd
    · exact htracks
    · refine (h.tracks b d hd).sameBut hsame ?_
      intro heq
      exact hb (h.distinct b a d c hd hc heq)
  · intro fd ptr events hinterest
    by_cases hn : fd = c.fd
    · subst hn
      refine ⟨c', ?_, hfd⟩
      have hptr' : ptr = a := by
        rw [← hfd] at hinterest
        unfold EPollPoller.Tracks at htracks
        split at htracks
        · rw [htracks.2] at hinterest
          cases hinterest
        · rw [htracks.2] at hinterest
          cases hinterest
          exact hptr.trans (h.at_address a c hc)
        · rw [htracks.2] at hinterest
          cases hinterest
      exact update_some_eq_some.mpr (.inl ⟨hptr', rfl⟩)
    · rw [(hsame fd hn).2] at hinterest
      obtain ⟨d, hd, hdfd⟩ := h.owned fd ptr events hinterest
      refine ⟨d, update_some_eq_some.mpr (.inr ⟨?_, hd⟩), hdfd⟩
      rintro rfl
      rw [hc] at hd
      cases hd
      exact hn hdfd.symm

theorem Registered.fillActiveChannel {s : Registration φ} (h : Registered s)
    {event : Nat × Events} {fd : Nat} {events : Events}
    (hinterest : s.loop.poller.interest fd = some (event.1, events)) :
    ∃ heap, s.loop.poller.fillActiveChannel s.heap event = .ok heap ∧
      Registered { s with heap := heap } := by
  obtain ⟨c, hc, rfl⟩ := h.owned fd event.1 events hinterest
  have htracks := h.tracks event.1 c hc
  have hptr := h.at_address event.1 c hc
  have hknown : s.loop.poller.channels c.fd = some event.1 := by
    unfold EPollPoller.Tracks at htracks
    split at htracks
    · rw [htracks.2] at hinterest
      cases hinterest
    · rw [htracks.1, hptr]
    · rw [htracks.2] at hinterest
      cases hinterest
  refine ⟨Function.update s.heap event.1 (some { c with revents := event.2 }), ?_, ?_⟩
  · simp [EPollPoller.fillActiveChannel, hc, hknown]
  · exact h.set hc rfl rfl htracks (.refl c.fd s.loop.poller)

theorem Registered.poll {s : Registration φ} (h : Registered s) (ready : List (Nat × Events)) :
    ∃ size heap activeChannels,
      s.loop.poller.poll s.size ready s.heap = .ok (size, heap, activeChannels) ∧
        Registered { s with heap := heap } := by
  have hrun : ∃ heap, run s.loop.poller.fillActiveChannel s.heap
      (s.loop.poller.epollWait s.size ready) = .ok heap ∧ Registered { s with heap := heap } := by
    apply Along.run_total (P := fun _ event => ∃ fd events,
      s.loop.poller.interest fd = some (event.1, events))
    · rintro heap event hheap ⟨fd, events, hinterest⟩
      exact Registered.fillActiveChannel hheap hinterest
    · apply along_of_mem
      intro event hevent _
      obtain ⟨fd, events, -, hentry⟩ := EPollPoller.epollWait_mem hevent
      exact ⟨fd, events, hentry⟩
    · exact h
  obtain ⟨heap, hheap, hregistered⟩ := hrun
  have hlength : (s.loop.poller.epollWait s.size ready).length ≤ s.size := List.length_take_le _ _
  dsimp only [EPollPoller.poll]
  split
  · rw [EPollPoller.fillActiveChannels, decide_eq_true hlength, check_true, ok_bind, hheap]
    exact ⟨_, _, _, rfl, hregistered⟩
  · exact ⟨_, _, _, rfl, h⟩

theorem registered_step {s : Registration φ} (h : Registered s) {b : Step} (hb : Allowed s b) :
    (∃ t, step s b = .ok t ∧ Registered t) ∨
      step s b = .error (.assertion .loopRemoveChannel) ∧ s.loop.eventHandling = true := by
  cases b with
  | call f a =>
    cases hc : s.heap a with
    | none =>
      rw [Registration.step, hc]
      exact .inl ⟨s, rfl, h⟩
    | some c =>
      have hremove : f = .remove → s.loop.poller.hasChannel c = true ∧ c.isNoneEvent = true := by
        rintro rfl
        exact hb c hc
      rw [step_call hc]
      obtain ⟨c', l', hcall, hcalled⟩ | ⟨hcall, hhandling⟩ :=
        ChannelCall.call_spec (h.tracks a c hc) hremove
      · rw [hcall]
        left
        exact ⟨_, rfl, h.set hc hcalled.ptr_eq hcalled.fd_eq hcalled.tracks hcalled.sameBut⟩
      · rw [hcall]
        exact .inr ⟨rfl, hhandling⟩
  | poll ready =>
    left
    obtain ⟨size, heap, activeChannels, hpoll, hregistered⟩ := h.poll ready
    dsimp only [Registration.step]
    rw [hpoll]
    exact ⟨_, rfl, hregistered.at_address, hregistered.distinct, hregistered.tracks,
      hregistered.owned⟩
  | handleEvents eventHandling =>
    exact .inl ⟨_, rfl, h.at_address, h.distinct, h.tracks, h.owned⟩

/-- No round leaves the loop handling events unless it was told to. -/
theorem step_eventHandling {s t : Registration φ} {b : Step} (hb : b ≠ .handleEvents true)
    (h : Registered s) (hallowed : Allowed s b) (hs : s.loop.eventHandling = false)
    (ht : step s b = .ok t) : t.loop.eventHandling = false := by
  cases b with
  | call f a =>
    cases hc : s.heap a with
    | none =>
      rw [step, hc] at ht
      cases ht
      exact hs
    | some c =>
      rw [step_call hc] at ht
      obtain ⟨⟨c', l'⟩, hcall, ht⟩ := bind_eq_ok.mp ht
      cases ht
      have hremove : f = .remove → s.loop.poller.hasChannel c = true ∧ c.isNoneEvent = true := by
        rintro rfl
        exact hallowed c hc
      obtain ⟨c'', l'', hcall', hcalled⟩ | ⟨-, hhandling⟩ :=
        ChannelCall.call_spec (h.tracks a c hc) hremove
      · rw [hcall] at hcall'
        cases hcall'
        rw [hcalled.loop_eq]
        exact hs
      · exact absurd (hs.symm.trans hhandling) (by simp)
  | poll ready =>
    obtain ⟨r, -, ht⟩ := bind_eq_ok.mp ht
    cases ht
    exact hs
  | handleEvents eventHandling =>
    cases ht
    simpa using hb

/-- Under any calls on the channels, in any order, with `remove` on registered channels without
interest: index, map and interest set agree in every state, the kernel accepts every operation, and
no assertion fails but the one by which a loop refuses to remove a channel that it is handling. -/
theorem registrations_agree (d : Descriptors) (steps : List Step)
    (hallowed : Along step Allowed (start d : Registration φ) steps) :
    (∀ before after, steps = before ++ after →
      ∀ t : Registration φ, run step (start d) before = .ok t →
        (∀ a c, t.heap a = some c → Agrees t.loop.poller c) ∧
        ∀ b rest, after = b :: rest →
          (∀ operation fd, ctl t b = some (operation, fd) →
            t.loop.poller.Accepts operation fd) ∧
          ∀ f, step t b = .error f →
            f = .assertion .loopRemoveChannel ∧ t.loop.eventHandling = true) ∧
    ((∀ b ∈ steps, b ≠ .handleEvents true) →
      ∃ t : Registration φ, run step (start d) steps = .ok t) := by
  constructor
  · rintro before after rfl t ht
    obtain ⟨hbefore, hafter⟩ := (along_append_ok ht).mp hallowed
    have h : Registered t := by
      apply Along.run_invariant _ hbefore (registered_start d) ht
      intro u b v hu hb hv
      obtain ⟨v', hv', hregistered⟩ | ⟨hfault, -⟩ := registered_step hu hb
      · rw [hv'] at hv
        cases hv
        exact hregistered
      · rw [hfault] at hv
        cases hv
    refine ⟨fun a c hc => agrees_of_tracks (h.tracks a c hc), ?_⟩
    rintro b rest rfl
    constructor
    · intro operation fd hctl
      cases b with
      | call f a =>
        obtain ⟨c, hc, hoperation⟩ := Option.bind_eq_some_iff.mp hctl
        obtain ⟨operation', hoperation', heq⟩ := Option.map_eq_some_iff.mp hoperation
        cases heq
        exact ChannelCall.operation_accepted (h.tracks a c hc) hoperation'
      | poll ready => cases hctl
      | handleEvents eventHandling => cases hctl
    · intro f hf
      obtain ⟨t', ht', -⟩ | ⟨hfault, hhandling⟩ := registered_step h hafter.1
      · rw [ht'] at hf
        cases hf
      · rw [hfault] at hf
        cases hf
        exact ⟨rfl, hhandling⟩
  · intro hquiet
    have hallowed' : Along step (fun s b => Allowed s b ∧ b ≠ .handleEvents true)
        (start d : Registration φ) steps := by
      rw [along_iff] at hallowed ⊢
      rintro before b after rfl t ht
      exact ⟨hallowed before b after rfl t ht, hquiet b (by simp)⟩
    have hstep : ∀ (s : Registration φ) b, (Registered s ∧ s.loop.eventHandling = false) →
        (Allowed s b ∧ b ≠ .handleEvents true) →
        ∃ t, step s b = .ok t ∧ Registered t ∧ t.loop.eventHandling = false := by
      rintro s b ⟨hs, hhandling⟩ ⟨hb, hquiet⟩
      obtain ⟨t, ht, hregistered⟩ | ⟨-, hhandling'⟩ := registered_step hs hb
      · exact ⟨t, ht, hregistered, step_eventHandling hquiet hs hb hhandling ht⟩
      · exact absurd (hhandling.symm.trans hhandling') (by simp)
    obtain ⟨t, ht, -⟩ := hallowed'.run_total hstep ⟨registered_start d, rfl⟩
    exact ⟨t, ht⟩

/-- The descriptors 5 and 6, of the channels at 0 and 1. -/
def twoDescriptors : Descriptors where
  fd a := if a = 0 then some 5 else if a = 1 then some 6 else none
  distinct := by
    intro a b n ha hb
    split at ha <;> split at hb <;> simp_all <;> omega

theorem registrations_agree_two :
    let steps : List Step := [.call .enableReading 0, .call .enableWriting 1, .poll [(5, POLLIN)],
      .call .disableAll 0, .call .enableReading 0, .call .disableAll 0, .call .remove 0,
      .call .enableReading 0]
    ∃ t : Registration Unit, run step (start twoDescriptors) steps = .ok t ∧
      ∀ a c, t.heap a = some c → Agrees t.loop.poller c := by
  have h := registrations_agree (φ := Unit) twoDescriptors _ (by decide :
    Along step Allowed (start twoDescriptors : Registration Unit) [.call .enableReading 0,
      .call .enableWriting 1, .poll [(5, POLLIN)], .call .disableAll 0, .call .enableReading 0,
      .call .disableAll 0, .call .remove 0, .call .enableReading 0])
  obtain ⟨t, ht⟩ := h.2 (by decide)
  exact ⟨t, ht, (h.1 _ [] (by simp) t ht).1⟩

end Registration

end Mymuduo
