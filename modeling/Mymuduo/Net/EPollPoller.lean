import Mathlib.Logic.Function.Basic
import Mymuduo.Net.Channel

/-! The poller: the map from descriptors to channels, the kernel's interest set, and the functions
that keep them and the index of each channel in step. -/

namespace Mymuduo

open Lib

/-- An `EPollPoller`.  `channels` is `channels_`; `interest` is the kernel's side, the `data.ptr`
and the mask that `epoll_ctl` has registered for each descriptor. -/
structure EPollPoller where
  channels : Nat → Option Nat
  interest : Nat → Option (Nat × Events)

/-- The operations of `epoll_ctl`. -/
inductive EpollOperation
  | EPOLL_CTL_ADD
  | EPOLL_CTL_MOD
  | EPOLL_CTL_DEL
  deriving DecidableEq, Repr

namespace EPollPoller

/-- `EPollPoller::EPollPoller` -/
def new : EPollPoller where
  channels := fun _ => none
  interest := fun _ => none

/-- `update`.  The kernel refuses to add a present descriptor and to change or delete an absent
one; a refused deletion is only logged. -/
def update (p : EPollPoller) (operation : EpollOperation) (c : Channel) :
    Except Fault EPollPoller :=
  match operation, p.interest c.fd with
  | .EPOLL_CTL_ADD, none | .EPOLL_CTL_MOD, some _ =>
    .ok { p with interest := Function.update p.interest c.fd (some (c.ptr, c.events)) }
  | .EPOLL_CTL_DEL, some _ => .ok { p with interest := Function.update p.interest c.fd none }
  | .EPOLL_CTL_DEL, none => .ok p
  | .EPOLL_CTL_ADD, some _ | .EPOLL_CTL_MOD, none => .error .fatal

def updateChannel (p : EPollPoller) (c : Channel) : Except Fault (EPollPoller × Channel) :=
  match c.index with
  | .kNew => do
    check .updateChannelNew (p.channels c.fd == none)
    let p := { p with channels := Function.update p.channels c.fd (some c.ptr) }
    let p ← p.update .EPOLL_CTL_ADD c
    return (p, { c with index := .kAdded })
  | .kDeleted => do
    check .updateChannelDeleted (p.channels c.fd == some c.ptr)
    let p ← p.update .EPOLL_CTL_ADD c
    return (p, { c with index := .kAdded })
  | .kAdded => do
    check .updateChannelAdded (p.channels c.fd == some c.ptr)
    if c.isNoneEvent then
      let p ← p.update .EPOLL_CTL_DEL c
      return (p, { c with index := .kDeleted })
    else
      let p ← p.update .EPOLL_CTL_MOD c
      return (p, c)

def removeChannel (p : EPollPoller) (c : Channel) : Except Fault (EPollPoller × Channel) := do
  check .removeChannelKnown (p.channels c.fd == some c.ptr)
  check .removeChannelNoneEvent c.isNoneEvent
  check .removeChannelIndex (c.index == .kAdded || c.index == .kDeleted)
  let p := { p with channels := Function.update p.channels c.fd none }
  let p ← if c.index == .kAdded then p.update .EPOLL_CTL_DEL c else .ok p
  return (p, { c with index := .kNew })

/-- The number of events that a new poller has room for. -/
def kInitEventListSize : Nat := 16

/-- What `epoll_wait` writes into `events_`, in room for `size` events: for each ready descriptor
that is in the interest set, the pointer registered with it and the events it is ready for. -/
def epollWait (p : EPollPoller) (size : Nat) (ready : List (Nat × Events)) : List (Nat × Events) :=
  (ready.filterMap fun r => (p.interest r.1).map fun entry => (entry.1, r.2)).take size

/-- One round of `fillActiveChannels`, for a channel on the heap. -/
def fillActiveChannel (p : EPollPoller) (heap : Nat → Option Channel) (event : Nat × Events) :
    Except Fault (Nat → Option Channel) :=
  match heap event.1 with
  | none => .error .danglingPointer
  | some c => do
    check .fillActiveChannelsKnown (p.channels c.fd == some event.1)
    return Function.update heap event.1 (some { c with revents := event.2 })

/-- `fillActiveChannels`: the heap after it, and the active channels. -/
def fillActiveChannels (p : EPollPoller) (size : Nat) (events : List (Nat × Events))
    (heap : Nat → Option Channel) : Except Fault ((Nat → Option Channel) × List Nat) := do
  check .fillActiveChannelsSize (events.length ≤ size)
  let heap ← run p.fillActiveChannel heap events
  return (heap, events.map Prod.fst)

/-- `poll`, with the room that `events_` has after it. -/
def poll (p : EPollPoller) (size : Nat) (ready : List (Nat × Events))
    (heap : Nat → Option Channel) :
    Except Fault (Nat × (Nat → Option Channel) × List Nat) := do
  let events := p.epollWait size ready
  if events.length > 0 then
    let (heap, activeChannels) ← p.fillActiveChannels size events heap
    return (if events.length = size then size * 2 else size, heap, activeChannels)
  else
    return (size, heap, [])

/-- `Poller::hasChannel` -/
def hasChannel (p : EPollPoller) (c : Channel) : Bool := p.channels c.fd == some c.ptr

/-- The operation with which `updateChannel` calls `epoll_ctl`. -/
def updateOperation (c : Channel) : EpollOperation :=
  match c.index with
  | .kNew | .kDeleted => .EPOLL_CTL_ADD
  | .kAdded => if c.isNoneEvent then .EPOLL_CTL_DEL else .EPOLL_CTL_MOD

/-- The operation with which `removeChannel` calls `epoll_ctl`, if it does. -/
def removeOperation (c : Channel) : Option EpollOperation :=
  if c.index = .kAdded then some .EPOLL_CTL_DEL else none

/-- The kernel accepts the operation: it adds an absent descriptor, or changes or deletes a present
one. -/
def Accepts (p : EPollPoller) (operation : EpollOperation) (fd : Nat) : Prop :=
  match operation with
  | .EPOLL_CTL_ADD => p.interest fd = none
  | .EPOLL_CTL_MOD | .EPOLL_CTL_DEL => (p.interest fd).isSome

/-- The poller, the kernel and a channel agree on what the channel's index says. -/
def Tracks (p : EPollPoller) (c : Channel) : Prop :=
  match c.index with
  | .kNew => p.channels c.fd = none ∧ p.interest c.fd = none
  | .kAdded => p.channels c.fd = some c.ptr ∧ p.interest c.fd = some (c.ptr, c.events)
  | .kDeleted => p.channels c.fd = some c.ptr ∧ p.interest c.fd = none

/-- The two pollers agree on every descriptor but `fd`. -/
def SameBut (fd : Nat) (p q : EPollPoller) : Prop :=
  ∀ n ≠ fd, q.channels n = p.channels n ∧ q.interest n = p.interest n

theorem SameBut.refl (fd : Nat) (p : EPollPoller) : SameBut fd p p := fun _ _ => ⟨rfl, rfl⟩

theorem SameBut.trans {fd : Nat} {p q r : EPollPoller} (hpq : SameBut fd p q)
    (hqr : SameBut fd q r) : SameBut fd p r := by
  intro n hn
  obtain ⟨hch, hint⟩ := hpq n hn
  obtain ⟨hch', hint'⟩ := hqr n hn
  exact ⟨hch'.trans hch, hint'.trans hint⟩

theorem sameBut_channels (p : EPollPoller) (fd : Nat) (ptr : Option Nat) :
    SameBut fd p { p with channels := Function.update p.channels fd ptr } := by
  intro n hn
  simp [hn]

theorem update_sameBut {p q : EPollPoller} {operation : EpollOperation} {c : Channel}
    (h : p.update operation c = .ok q) : SameBut c.fd p q := by
  unfold update at h
  intro n hn
  split at h <;> cases h <;> simp [hn]

theorem update_channels {p q : EPollPoller} {operation : EpollOperation} {c : Channel}
    (h : p.update operation c = .ok q) : q.channels = p.channels := by
  unfold update at h
  split at h <;> cases h <;> rfl

theorem updateChannel_frame {p q : EPollPoller} {c d : Channel}
    (h : p.updateChannel c = .ok (q, d)) : d = { c with index := d.index } := by
  unfold updateChannel at h
  split at h
  · obtain ⟨u, -, h⟩ := bind_eq_ok.mp h
    obtain ⟨r, -, h⟩ := bind_eq_ok.mp h
    cases h
    rfl
  · obtain ⟨u, -, h⟩ := bind_eq_ok.mp h
    obtain ⟨r, -, h⟩ := bind_eq_ok.mp h
    cases h
    rfl
  · obtain ⟨u, -, h⟩ := bind_eq_ok.mp h
    split at h
    · obtain ⟨r, -, h⟩ := bind_eq_ok.mp h
      cases h
      rfl
    · obtain ⟨r, -, h⟩ := bind_eq_ok.mp h
      cases h
      rfl

/-- `updateChannel` calls `epoll_ctl` once, with the interest set as it finds it. -/
theorem updateChannel_calls {p q : EPollPoller} {c d : Channel}
    (h : p.updateChannel c = .ok (q, d)) :
    ∃ p', p'.interest = p.interest ∧ SameBut c.fd p p' ∧
      p'.update (updateOperation c) c = .ok q := by
  unfold updateChannel at h
  unfold updateOperation
  split at h
  · obtain ⟨u, -, h⟩ := bind_eq_ok.mp h
    obtain ⟨r, hr, h⟩ := bind_eq_ok.mp h
    cases h
    exact ⟨{ p with channels := Function.update p.channels c.fd (some c.ptr) }, rfl,
      sameBut_channels p c.fd (some c.ptr), hr⟩
  · obtain ⟨u, -, h⟩ := bind_eq_ok.mp h
    obtain ⟨r, hr, h⟩ := bind_eq_ok.mp h
    cases h
    exact ⟨p, rfl, .refl c.fd p, hr⟩
  · obtain ⟨u, -, h⟩ := bind_eq_ok.mp h
    split at h
    · obtain ⟨r, hr, h⟩ := bind_eq_ok.mp h
      cases h
      exact ⟨p, rfl, .refl c.fd p, by simp [*]⟩
    · obtain ⟨r, hr, h⟩ := bind_eq_ok.mp h
      cases h
      exact ⟨p, rfl, .refl c.fd p, by simp [*]⟩

theorem updateChannel_sameBut {p q : EPollPoller} {c d : Channel}
    (h : p.updateChannel c = .ok (q, d)) : SameBut c.fd p q := by
  obtain ⟨p', -, hsame, hq⟩ := updateChannel_calls h
  exact hsame.trans (update_sameBut hq)

/-- `removeChannel` calls `epoll_ctl` at most once, with the interest set as it finds it. -/
theorem removeChannel_calls {p q : EPollPoller} {c d : Channel}
    (h : p.removeChannel c = .ok (q, d)) :
    d = { c with index := .kNew } ∧
    ∃ p', p'.interest = p.interest ∧ SameBut c.fd p p' ∧
      match removeOperation c with
      | none => q = p'
      | some operation => p'.update operation c = .ok q := by
  obtain ⟨u, -, h⟩ := bind_eq_ok.mp h
  obtain ⟨u, -, h⟩ := bind_eq_ok.mp h
  obtain ⟨u, -, h⟩ := bind_eq_ok.mp h
  unfold removeOperation
  dsimp only at h
  split at h
  · obtain ⟨r, hr, h⟩ := bind_eq_ok.mp h
    cases h
    exact ⟨rfl, { p with channels := Function.update p.channels c.fd none }, rfl,
      sameBut_channels p c.fd none, by simp_all⟩
  · cases h
    exact ⟨rfl, { p with channels := Function.update p.channels c.fd none }, rfl,
      sameBut_channels p c.fd none, by simp_all⟩

theorem removeChannel_sameBut {p q : EPollPoller} {c d : Channel}
    (h : p.removeChannel c = .ok (q, d)) : SameBut c.fd p q := by
  obtain ⟨-, p', -, hsame, hq⟩ := removeChannel_calls h
  cases hop : removeOperation c with
  | none =>
    rw [hop] at hq
    exact hq ▸ hsame
  | some operation =>
    rw [hop] at hq
    exact hsame.trans (update_sameBut hq)

theorem updateChannel_spec {p : EPollPoller} {c : Channel} (h : p.Tracks c) (events : Events) :
    ∃ q index, p.updateChannel { c with events := events } =
        .ok (q, { c with events := events, index := index }) ∧
      q.Tracks { c with events := events, index := index } ∧ SameBut c.fd p q ∧
      index ≠ .kNew := by
  obtain ⟨ptr, fd, old, revents, index, added, handling, tied⟩ := c
  cases index with
  | kNew =>
    obtain ⟨hch, hint⟩ := h
    refine ⟨⟨Function.update p.channels fd (some ptr),
      Function.update p.interest fd (some (ptr, events))⟩, .kAdded, ?_, ?_, ?_, by simp⟩
    · simp [updateChannel, update, hch, hint]
    · simp [Tracks]
    · intro n hn
      simp [hn]
  | kDeleted =>
    obtain ⟨hch, hint⟩ := h
    refine ⟨⟨p.channels, Function.update p.interest fd (some (ptr, events))⟩, .kAdded, ?_, ?_, ?_,
      by simp⟩
    · simp [updateChannel, update, hch, hint]
    · simpa [Tracks] using hch
    · intro n hn
      simp [hn]
  | kAdded =>
    obtain ⟨hch, hint⟩ := h
    by_cases hnone : events = Channel.kNoneEvent
    · refine ⟨⟨p.channels, Function.update p.interest fd none⟩, .kDeleted, ?_, ?_, ?_, by simp⟩
      · simp [updateChannel, update, Channel.isNoneEvent, hch, hint, hnone]
      · simpa [Tracks] using hch
      · intro n hn
        simp [hn]
    · refine ⟨⟨p.channels, Function.update p.interest fd (some (ptr, events))⟩, .kAdded, ?_, ?_, ?_,
        by simp⟩
      · simp [updateChannel, update, Channel.isNoneEvent, hch, hint, hnone]
      · simpa [Tracks] using hch
      · intro n hn
        simp [hn]

/-- An updated channel is known. -/
theorem updateChannel_known {p q : EPollPoller} {c d : Channel}
    (h : p.updateChannel c = .ok (q, d)) : d.index ≠ .kNew := by
  unfold updateChannel at h
  split at h
  · obtain ⟨u, -, h⟩ := bind_eq_ok.mp h
    obtain ⟨r, -, h⟩ := bind_eq_ok.mp h
    cases h
    simp
  · obtain ⟨u, -, h⟩ := bind_eq_ok.mp h
    obtain ⟨r, -, h⟩ := bind_eq_ok.mp h
    cases h
    simp
  · rename_i hadded
    obtain ⟨u, -, h⟩ := bind_eq_ok.mp h
    split at h
    · obtain ⟨r, -, h⟩ := bind_eq_ok.mp h
      cases h
      simp
    · obtain ⟨r, -, h⟩ := bind_eq_ok.mp h
      cases h
      simp [hadded]

/-- The interest set holds an updated channel unless it had it and there is no interest left. -/
theorem updateChannel_index {p q : EPollPoller} {c d : Channel}
    (h : p.updateChannel c = .ok (q, d)) :
    d.index = if c.index = .kAdded ∧ c.events = Channel.kNoneEvent then .kDeleted else .kAdded := by
  unfold updateChannel at h
  split at h
  case h_1 hnew =>
    obtain ⟨u, -, h⟩ := bind_eq_ok.mp h
    obtain ⟨r, -, h⟩ := bind_eq_ok.mp h
    cases h
    simp [hnew]
  case h_2 hdeleted =>
    obtain ⟨u, -, h⟩ := bind_eq_ok.mp h
    obtain ⟨r, -, h⟩ := bind_eq_ok.mp h
    cases h
    simp [hdeleted]
  case h_3 hadded =>
    obtain ⟨u, -, h⟩ := bind_eq_ok.mp h
    split at h
    · rename_i hnone
      obtain ⟨r, -, h⟩ := bind_eq_ok.mp h
      cases h
      simp [hadded, show c.events = Channel.kNoneEvent by simpa [Channel.isNoneEvent] using hnone]
    · rename_i hsome
      obtain ⟨r, -, h⟩ := bind_eq_ok.mp h
      cases h
      simp [hadded, show c.events ≠ Channel.kNoneEvent by simpa [Channel.isNoneEvent] using hsome]

/-- A new channel that the poller accepts was known neither to it nor to the kernel. -/
theorem unknown_of_updateChannel {p q : EPollPoller} {c d : Channel} (hnew : c.index = .kNew)
    (h : p.updateChannel c = .ok (q, d)) : p.channels c.fd = none ∧ p.interest c.fd = none := by
  rw [updateChannel, hnew] at h
  obtain ⟨u, hchannels, h⟩ := bind_eq_ok.mp h
  obtain ⟨p', hadd, -⟩ := bind_eq_ok.mp h
  refine ⟨by simpa using check_eq_ok.mp hchannels, ?_⟩
  cases hinterest : p.interest c.fd with
  | none => rfl
  | some old =>
    dsimp only [update] at hadd
    rw [hinterest] at hadd
    cases hadd

theorem removeChannel_spec {p : EPollPoller} {c : Channel} (h : p.Tracks c)
    (hnone : c.events = Channel.kNoneEvent) (hknown : c.index ≠ .kNew) :
    ∃ q, p.removeChannel c = .ok (q, { c with index := .kNew }) ∧
      q.Tracks { c with index := .kNew } ∧ SameBut c.fd p q := by
  obtain ⟨ptr, fd, events, revents, index, added, handling, tied⟩ := c
  have hnone' : events = Channel.kNoneEvent := hnone
  cases index with
  | kNew => exact absurd rfl hknown
  | kDeleted =>
    obtain ⟨hch, hint⟩ := h
    refine ⟨⟨Function.update p.channels fd none, p.interest⟩, ?_, ?_, fun n hn => by simp [hn]⟩
    · simp [removeChannel, Channel.isNoneEvent, hch, hnone']
    · simpa [Tracks] using hint
  | kAdded =>
    obtain ⟨hch, hint⟩ := h
    refine ⟨⟨Function.update p.channels fd none, Function.update p.interest fd none⟩, ?_, ?_,
      fun n hn => by simp [hn]⟩
    · simp [removeChannel, update, Channel.isNoneEvent, hch, hint, hnone']
    · simp [Tracks]

/-- What the kernel has registered for a descriptor leads to its channel, which is known. -/
def Leads (p : EPollPoller) (heap : Nat → Option Channel) : Prop :=
  ∀ fd entry, p.interest fd = some entry →
    p.channels fd = some entry.1 ∧ ∃ c, heap entry.1 = some c ∧ c.fd = fd

/-- The channels with the events of a poll. -/
def revised (events : List (Nat × Events)) (heap : Nat → Option Channel) (a : Nat) :
    Option Channel :=
  (heap a).map fun c => { c with revents := (events.lookup a).getD c.revents }

theorem epollWait_mem {p : EPollPoller} {size : Nat} {ready : List (Nat × Events)}
    {event : Nat × Events} (h : event ∈ p.epollWait size ready) :
    ∃ fd interest, (fd, event.2) ∈ ready ∧ p.interest fd = some (event.1, interest) := by
  obtain ⟨r, hr, hevent⟩ := List.mem_filterMap.mp (List.mem_of_mem_take h)
  obtain ⟨entry, hentry, rfl⟩ := Option.map_eq_some_iff.mp hevent
  exact ⟨r.1, entry.2, hr, hentry⟩

/-- A poll that finds a descriptor once finds a channel once. -/
theorem Leads.nodup_epollWait {p : EPollPoller} {heap : Nat → Option Channel} (h : p.Leads heap)
    {ready : List (Nat × Events)} (hready : (ready.map Prod.fst).Nodup) (size : Nat) :
    ((p.epollWait size ready).map Prod.fst).Nodup := by
  refine List.Nodup.sublist ((List.take_sublist size _).map Prod.fst) ?_
  rw [List.Nodup, List.pairwise_map] at hready ⊢
  apply hready.filterMap
  intro r r' hne event hevent event' hevent' hsame
  obtain ⟨entry, hentry, rfl⟩ := Option.map_eq_some_iff.mp hevent
  obtain ⟨entry', hentry', rfl⟩ := Option.map_eq_some_iff.mp hevent'
  obtain ⟨-, c, hc, hfd⟩ := h r.1 entry hentry
  obtain ⟨-, c', hc', hfd'⟩ := h r'.1 entry' hentry'
  dsimp only at hsame
  rw [hsame, hc'] at hc
  cases hc
  exact hne (hfd.symm.trans hfd')

theorem Leads.fillActiveChannel {p : EPollPoller} {heap : Nat → Option Channel} (h : p.Leads heap)
    {event : Nat × Events} {fd : Nat} {interest : Events}
    (hentry : p.interest fd = some (event.1, interest)) :
    ∃ c, heap event.1 = some c ∧ p.fillActiveChannel heap event =
      .ok (Function.update heap event.1 (some { c with revents := event.2 })) ∧
      p.Leads (Function.update heap event.1 (some { c with revents := event.2 })) := by
  obtain ⟨hknown, c, hc, hfd⟩ := h fd _ hentry
  refine ⟨c, hc, by simp_all [EPollPoller.fillActiveChannel], ?_⟩
  intro fd' entry' hentry'
  obtain ⟨hknown', c', hc', hfd'⟩ := h fd' entry' hentry'
  refine ⟨hknown', ?_⟩
  by_cases ha : entry'.1 = event.1
  · rw [ha] at hc' ⊢
    cases hc.symm.trans hc'
    exact ⟨_, Function.update_self .., hfd'⟩
  · exact ⟨c', by rw [Function.update_of_ne ha]; exact hc', hfd'⟩

theorem lookup_event (event : Nat × Events) (events : List (Nat × Events)) (a : Nat) :
    (event :: events).lookup a = if a = event.1 then some event.2 else events.lookup a := by
  by_cases ha : a = event.1
  · have hbeq : (a == event.1) = true := by simpa using ha
    rw [if_pos ha, show event = (event.1, event.2) from rfl, List.lookup_cons, hbeq]
  · have hbeq : (a == event.1) = false := by simpa using ha
    rw [if_neg ha, show event = (event.1, event.2) from rfl, List.lookup_cons, hbeq]

theorem Leads.run_fillActiveChannel {p : EPollPoller} {heap : Nat → Option Channel}
    (h : p.Leads heap) {events : List (Nat × Events)} (hnodup : (events.map Prod.fst).Nodup)
    (hentries : ∀ event ∈ events, ∃ fd interest, p.interest fd = some (event.1, interest)) :
    run p.fillActiveChannel heap events = .ok (revised events heap) := by
  induction events generalizing heap with
  | nil =>
    have hsame : revised [] heap = heap := by
      funext a
      cases ha : heap a <;> simp [revised, ha]
    rw [hsame]
    rfl
  | cons event events ih =>
    obtain ⟨fd, interest, hentry⟩ := hentries event List.mem_cons_self
    obtain ⟨c, hc, hfill, hleads⟩ := h.fillActiveChannel hentry
    rw [List.map_cons, List.nodup_cons] at hnodup
    have hrest : events.lookup event.1 = none := by
      rw [List.lookup_eq_none_iff]
      intro e he
      have hne : event.1 ≠ e.1 := fun hsame => hnodup.1 (List.mem_map.mpr ⟨e, he, hsame.symm⟩)
      simpa using hne
    rw [run_cons, hfill, ok_bind,
      ih hleads hnodup.2 fun e he => hentries e (List.mem_cons_of_mem _ he)]
    congr 1
    funext a
    by_cases ha : a = event.1
    · subst ha
      simp [revised, hc, hrest, lookup_event]
    · simp [revised, ha, lookup_event]

/-- A poll has no fault, and writes what it finds to the channels. -/
theorem Leads.poll {p : EPollPoller} {heap : Nat → Option Channel} (h : p.Leads heap)
    {ready : List (Nat × Events)} (hready : (ready.map Prod.fst).Nodup) (size : Nat) :
    ∃ size', p.poll size ready heap = .ok (size', revised (p.epollWait size ready) heap,
      (p.epollWait size ready).map Prod.fst) := by
  have hrun := h.run_fillActiveChannel (h.nodup_epollWait hready size) (by
    intro event hevent
    obtain ⟨fd, interest, -, hentry⟩ := epollWait_mem hevent
    exact ⟨fd, interest, hentry⟩)
  have hlength : (p.epollWait size ready).length ≤ size := List.length_take_le _ _
  dsimp only [EPollPoller.poll]
  split
  · rw [EPollPoller.fillActiveChannels, decide_eq_true hlength, check_true, ok_bind, hrun]
    exact ⟨_, rfl⟩
  · rename_i hnone
    have hempty : p.epollWait size ready = [] := List.eq_nil_of_length_eq_zero (by omega)
    rw [hempty] at hrun ⊢
    exact ⟨size, by rw [← Except.ok.inj hrun]; rfl⟩

/-- A channel is tracked as before when the poller changes only at another descriptor. -/
theorem Tracks.sameBut {p q : EPollPoller} {c : Channel} {fd : Nat} (h : p.Tracks c)
    (hsame : SameBut fd p q) (hne : c.fd ≠ fd) : q.Tracks c := by
  obtain ⟨hch, hint⟩ := hsame c.fd hne
  unfold Tracks at h ⊢
  rw [hch, hint]
  exact h

end EPollPoller

end Mymuduo
