import Mathlib.Data.Int.CardIntervalMod
import Mymuduo.Net.ServerFrame
import Mymuduo.Net.ServerLifecycle

/-! The loops that a server gives its connections to: they take turns, and none of them has ever been
given two connections more than another one. -/

namespace Mymuduo.ServerLoops

open Lib

variable {s t : ServerLoops} {threads : Nat}

/-- The connections that loop `l` has been given. -/
def connectionsIn (s : ServerLoops) (l : Nat) : Nat :=
  Nat.count (fun i => (s.conns i).map ServerConnection.ioLoop = some l) s.accepted

/-- The loop of connection `i`. -/
def turn (threads i : Nat) : Nat := if threads = 0 then 0 else i % threads + 1

/-- The loops have taken turns. -/
structure Dealt (threads : Nat) (s : ServerLoops) : Prop where
  loops : s.threadPool.loops = threads
  next : threads ≠ 0 → s.threadPool.next = s.accepted % threads
  turns : ∀ i c, s.conns i = some c → c.ioLoop = turn threads i

theorem Dealt.keep (h : Dealt threads s) (hpool : t.threadPool = s.threadPool)
    (haccepted : t.accepted = s.accepted)
    (hconns : ∀ i d, t.conns i = some d → ∃ c, s.conns i = some c ∧ d.ioLoop = c.ioLoop) :
    Dealt threads t where
  loops := by rw [hpool, h.loops]
  next hthreads := by rw [hpool, haccepted, h.next hthreads]
  turns i d hd := by
    obtain ⟨c, hc, hioLoop⟩ := hconns i d hd
    rw [hioLoop, h.turns i c hc]

theorem Dealt.frame {who : List Nat} (h : Dealt threads s) (hframe : Frame who s t) :
    Dealt threads t := by
  refine h.keep hframe.threadPool hframe.accepted ?_
  intro i d hd
  obtain ⟨c, hc, hioLoop, -⟩ := hframe.conns i d hd
  exact ⟨c, hc, hioLoop⟩

theorem succ_mod_turn {n a : Nat} (hn : n ≠ 0) :
    (if a % n + 1 ≥ n then 0 else a % n + 1) = (a + 1) % n := by
  have hlt : a % n < n := Nat.mod_lt a (Nat.pos_of_ne_zero hn)
  have hmod : (a + 1) % n = (a % n + 1) % n := (Nat.mod_add_mod a n 1).symm
  split
  · rw [hmod, show a % n + 1 = n by omega, Nat.mod_self]
  · rw [hmod, Nat.mod_eq_of_lt (show a % n + 1 < n by omega)]

/-- `getNextLoop` gives the connection to the loop whose turn it is. -/
theorem Dealt.entered (h : Dealt threads s) (sockfd : Nat) :
    Dealt threads (s.entered s.threadPool.getNextLoop.1 sockfd s.threadPool.getNextLoop.2) := by
  have hnext : s.threadPool.getNextLoop.1 = turn threads s.accepted ∧
      s.threadPool.getNextLoop.2.loops = threads ∧
      (threads ≠ 0 → s.threadPool.getNextLoop.2.next = (s.accepted + 1) % threads) := by
    unfold EventLoopThreadPool.getNextLoop turn
    rw [h.loops]
    by_cases hthreads : threads = 0
    · simp [hthreads, h.loops]
    · simp [hthreads, h.next hthreads, ← succ_mod_turn hthreads]
  obtain ⟨hturn, hloops, hafter⟩ := hnext
  refine ⟨hloops, hafter, ?_⟩
  intro i c hc
  by_cases hi : i = s.accepted
  · subst hi
    cases entered_self.symm.trans hc
    exact hturn
  · rw [entered_ne hi] at hc
    exact h.turns i c hc

theorem Dealt.begins {a : ServerStep} (h : Dealt threads s) (hbegins : Begins s a t) :
    Dealt threads t := by
  cases hbegins with
  | accept sockfd place => exact h.entered sockfd
  | poll place polled =>
    obtain ⟨heap, hconns, haccepted, hpool⟩ := poll_conns polled
    refine h.keep hpool haccepted ?_
    intro i d hd
    rw [hconns] at hd
    obtain ⟨c, hc, rfl⟩ := Option.map_eq_some_iff.mp hd
    exact ⟨c, hc, rfl⟩
  | @connectDestroyed l i c rest preceding w place conn ioLoop =>
    refine h.keep rfl rfl ?_
    intro j d hd
    rw [destroyedIn_conns] at hd
    split at hd
    · rename_i hj
      subst hj
      obtain ⟨e, he, rfl⟩ := Option.map_eq_some_iff.mp hd
      exact ⟨e, he, rfl⟩
    · exact ⟨d, hd, rfl⟩
  | same | callback | beginRound | functor | endRound | send | shutdown | queue =>
    exact h.keep rfl rfl fun i d hd => ⟨d, hd, rfl⟩

theorem Dealt.step {a : ServerStep} (h : Dealt threads s) (ht : s.step a = .ok t) :
    Dealt threads t := by
  obtain ⟨u, hbegins, hframe⟩ := step_begins ht
  exact (h.begins hbegins).frame hframe

theorem Dealt.count (h : Dealt threads s) (hs : Sound none s) {l : Nat} (hl : l < threads) :
    s.connectionsIn (l + 1) =
      s.accepted / threads + if l < s.accepted % threads then 1 else 0 := by
  have hcount : s.connectionsIn (l + 1) = Nat.count (· ≡ l [MOD threads]) s.accepted := by
    unfold connectionsIn
    rw [Nat.count_eq_card_filter_range, Nat.count_eq_card_filter_range]
    refine congrArg Finset.card (Finset.filter_congr ?_)
    intro i hi
    have hsome := (hs.named.accepted i).mpr (Finset.mem_range.mp hi)
    obtain ⟨c, hc⟩ := Option.isSome_iff_exists.mp hsome
    have hioLoop := h.turns i c hc
    rw [turn, if_neg (by omega)] at hioLoop
    rw [hc, Option.map_some, hioLoop, Option.some.injEq, Nat.ModEq, Nat.mod_eq_of_lt hl]
    omega
  rw [hcount, Nat.count_modEq_card _ (by omega), Nat.mod_eq_of_lt hl]

/-- In every run of the loops, connection `i` is in the loop whose turn it was, and the numbers of
connections that the loops have been given are as even as they can be. -/
theorem loops_take_turns (threads : Nat) (listenAddr : InetAddress) (nameArg : Bytes)
    (writeCompleteCallback : Bool) (steps : List ServerStep)
    (hkernel : Along step KernelKeeps (new threads listenAddr nameArg writeCompleteCallback) steps) :
    ∃ s, run step (new threads listenAddr nameArg writeCompleteCallback) steps = .ok s ∧
      (∀ i c, s.conns i = some c → c.ioLoop = turn threads i) ∧
      ∀ l < threads, s.connectionsIn (l + 1) =
        s.accepted / threads + if l < s.accepted % threads then 1 else 0 := by
  obtain ⟨s, hrun, hsound⟩ := sound_run threads listenAddr nameArg writeCompleteCallback steps hkernel
  have hstart : Dealt threads (new threads listenAddr nameArg writeCompleteCallback) := by
    refine ⟨rfl, fun _ => (Nat.zero_mod threads).symm, ?_⟩
    intro i c hc
    cases hc
  have hdealt : Dealt threads s := run_invariant (fun _ _ _ h ht => h.step ht) hstart hrun
  exact ⟨s, hrun, hdealt.turns, fun l hl => hdealt.count hsound hl⟩

/-- Four connections come, and one of them goes before the last one comes. -/
def fourClients : List ServerStep :=
  [.poll 0 16 [], .accept 7, .accept 8, .accept 9,
    .poll 1 16 [], .beginRound 1, .functor 1 0 .failed, .endRound 1,
    .poll 1 16 [(7, POLLHUP)], .callback 1 .error .failed, .accept 10]

theorem loops_take_turns_four :
    ∃ s, run step (new 3 ⟨(127, 0, 0, 1), 8000⟩ [] true) fourClients = .ok s ∧
      s.connectionsIn 1 = s.accepted / 3 + (if 0 < s.accepted % 3 then 1 else 0) ∧
      (run step (new 3 ⟨(127, 0, 0, 1), 8000⟩ [] true) fourClients).map (fun s =>
        (s.connectionsIn 1, s.connectionsIn 2, s.connectionsIn 3)) = .ok (2, 1, 1) := by
  obtain ⟨s, hrun, -, hcount⟩ :=
    loops_take_turns 3 ⟨(127, 0, 0, 1), 8000⟩ [] true fourClients (by decide +kernel)
  exact ⟨s, hrun, hcount 0 (by decide), by decide +kernel⟩

end Mymuduo.ServerLoops
