import Mymuduo.Net.BufferQueue

/-! How large the vector of a buffer gets.  `makeSpace` grows it only when the space before the
readable bytes and behind them does not hold what is asked for, and never shrinks it.  If the bytes
that are readable and those that are asked for are never more than `M`, the vector stays within
`2 * M + 6` bytes, and there are calls that make it as large. -/

namespace Mymuduo

open Lib

/-- The room that a call asks the buffer for. -/
def BufferOp.room : BufferOp → Nat
  | .append data => data.length
  | .ensureWriteableBytes len => len
  | .readFd (.data bytes) => bytes.length
  | _ => 0

namespace Buffer

variable {b t : Buffer} {M len : Nat}

/-- A buffer with nothing to read has all its space behind the reserve in front. -/
def Compact (b : Buffer) : Prop := b.readableBytes = 0 → b.readerIndex = kCheapPrepend

/-- The largest vector that a demand of `M` bytes makes. -/
def sizeLimit (M : Nat) : Nat := max (kCheapPrepend + M) (2 * M + 6)

/-- From `b` to `t` the vector has not shrunk, and if it has grown then no further than the limit. -/
structure Grown (M : Nat) (b t : Buffer) : Prop where
  compact : Compact t
  ge : b.buffer.length ≤ t.buffer.length
  le : t.buffer.length ≤ max b.buffer.length (sizeLimit M)

theorem Grown.trans {u : Buffer} (h : Grown M b t) (h' : Grown M t u) : Grown M b u := by
  obtain ⟨-, hge, hle⟩ := h
  obtain ⟨hcompact, hge', hle'⟩ := h'
  exact ⟨hcompact, hge.trans hge', by omega⟩

theorem Grown.of_length (hcompact : Compact t) (h : t.buffer.length = b.buffer.length) :
    Grown M b t :=
  ⟨hcompact, h.ge, by omega⟩

@[simp] theorem length_resize {n : Nat} (h : b.writerIndex ≤ n) :
    (b.resize n h).buffer.length = n := by
  simp only [resize, List.length_append, List.length_take, List.length_replicate]
  omega

@[simp] theorem length_slide (b : Buffer) : b.slide.buffer.length = b.buffer.length := by
  have hp := b.prepend_le
  have hr := b.reader_le
  have hw := b.writer_le
  simp only [slide, List.length_append, List.length_take, List.length_drop, length_readable,
    readableBytes]
  omega

theorem length_store {data : Bytes} (h : data.length ≤ b.writableBytes) :
    (b.store data).buffer.length = b.buffer.length := by
  have hw := b.writer_le
  unfold writableBytes at h
  simp only [store, List.length_append, List.length_take, List.length_drop]
  omega

/-- The vector grows by a resize, and then the readable bytes do not lie far behind its start. -/
theorem makeSpace_grown (hcompact : Compact b) (hlen : b.writableBytes < len)
    (hroom : b.readableBytes + len ≤ M) (h : b.makeSpace len = .ok t) : Grown M b t := by
  have hp := b.prepend_le
  have hr := b.reader_le
  have hw := b.writer_le
  unfold makeSpace at h
  split at h
  · rename_i hfew
    cases h
    refine ⟨hcompact, ?_, ?_⟩
    · rw [length_resize]
      unfold writableBytes at hlen
      omega
    · rw [length_resize, sizeLimit]
      unfold writableBytes prependableBytes at hfew
      unfold readableBytes at hroom
      by_cases hempty : b.readableBytes = 0
      · have hfront := hcompact hempty
        unfold readableBytes at hempty
        omega
      · unfold readableBytes at hempty
        have hreserve : kCheapPrepend = 8 := rfl
        omega
  · obtain ⟨u, -, h⟩ := bind_eq_ok.mp h
    cases h
    exact .of_length (fun _ => rfl) (length_slide b)

theorem ensureWriteableBytes_grown (hcompact : Compact b) (hroom : b.readableBytes + len ≤ M)
    (h : b.ensureWriteableBytes len = .ok t) : Grown M b t := by
  unfold ensureWriteableBytes at h
  split at h
  · rename_i hlen
    dsimp only at h
    obtain ⟨u, hu, h⟩ := bind_eq_ok.mp h
    obtain ⟨v, -, h⟩ := bind_eq_ok.mp h
    cases h
    exact makeSpace_grown hcompact hlen hroom hu
  · dsimp only at h
    obtain ⟨u, hu, h⟩ := bind_eq_ok.mp h
    cases hu
    obtain ⟨v, -, h⟩ := bind_eq_ok.mp h
    cases h
    exact .of_length hcompact rfl

/-- Bytes that fit are stored in the vector as it is. -/
theorem store_hasWritten_grown {data : Bytes} (hcompact : Compact b)
    (hfit : data.length ≤ b.writableBytes) (h : (b.store data).hasWritten data.length = .ok t) :
    Grown M b t := by
  unfold hasWritten at h
  split at h
  · cases h
    refine .of_length ?_ (length_store hfit)
    intro hempty
    have hr := b.reader_le
    apply hcompact
    show b.writerIndex - b.readerIndex = 0
    have hnone : b.writerIndex + data.length - b.readerIndex = 0 := hempty
    omega
  · cases h

theorem append_grown {data : Bytes} (hcompact : Compact b)
    (hroom : b.readableBytes + data.length ≤ M) (h : b.append data = .ok t) : Grown M b t := by
  obtain ⟨u, hu, h⟩ := bind_eq_ok.mp h
  have hgrown := ensureWriteableBytes_grown hcompact hroom hu
  obtain ⟨u', hu', -, hfit⟩ := b.ensureWriteableBytes_spec data.length
  cases hu.symm.trans hu'
  exact hgrown.trans (store_hasWritten_grown hgrown.compact hfit h)

theorem received_grown {bytes : Bytes} (hcompact : Compact b)
    (hroom : b.readableBytes + bytes.length ≤ M) (h : b.received bytes = .ok t) :
    Grown M b t := by
  unfold received at h
  dsimp only at h
  split at h
  · rename_i hfit
    exact store_hasWritten_grown hcompact hfit h
  · rename_i hspill
    obtain ⟨u, hu, h⟩ := bind_eq_ok.mp h
    have htaken : (bytes.take b.writableBytes).length = b.writableBytes := by
      rw [List.length_take]
      omega
    obtain ⟨u', hu', hreadable⟩ := store_hasWritten_spec (b := b) htaken.le
    rw [htaken, hu] at hu'
    cases hu'
    have hgrown : Grown M b u := by
      refine store_hasWritten_grown hcompact htaken.le ?_
      rw [htaken]
      exact hu
    refine hgrown.trans (append_grown hgrown.compact ?_ h)
    rw [← length_readable, hreadable, List.length_append, htaken, length_readable, List.length_drop]
    omega

theorem retrieve_grown (h : b.retrieve len = .ok t) : Grown M b t := by
  obtain ⟨u, -, h⟩ := bind_eq_ok.mp h
  split at h
  · rename_i hlt
    cases h
    refine .of_length ?_ rfl
    intro hempty
    have hnone : b.writerIndex - (b.readerIndex + len) = 0 := hempty
    unfold readableBytes at hlt
    omega
  · cases h
    exact .of_length (fun _ => rfl) rfl

theorem retrieveAsString_grown {result : Bytes} (h : b.retrieveAsString len = .ok (result, t)) :
    Grown M b t := by
  obtain ⟨u, -, h⟩ := bind_eq_ok.mp h
  obtain ⟨v, hv, h⟩ := bind_eq_ok.mp h
  cases h
  exact retrieve_grown hv

/-- What one call does to the vector. -/
theorem perform_grown {op : BufferOp} {result : Returned} (hcompact : Compact b)
    (hroom : b.readableBytes + op.room ≤ M) (h : b.perform op = .ok (result, t)) :
    Grown M b t := by
  cases op with
  | append data =>
    obtain ⟨u, hu, h⟩ := bind_eq_ok.mp h
    cases h
    exact append_grown hcompact hroom hu
  | ensureWriteableBytes len =>
    obtain ⟨u, hu, h⟩ := bind_eq_ok.mp h
    cases h
    exact ensureWriteableBytes_grown hcompact hroom hu
  | retrieve len =>
    obtain ⟨u, hu, h⟩ := bind_eq_ok.mp h
    cases h
    exact retrieve_grown hu
  | retrieveUntil len =>
    obtain ⟨u, hu, h⟩ := bind_eq_ok.mp h
    cases h
    obtain ⟨v, -, hu⟩ := bind_eq_ok.mp hu
    obtain ⟨w, -, hu⟩ := bind_eq_ok.mp hu
    exact retrieve_grown hu
  | retrieveAll =>
    cases h
    exact .of_length (fun _ => rfl) rfl
  | retrieveAsString len =>
    obtain ⟨⟨r, u⟩, hu, h⟩ := bind_eq_ok.mp h
    cases h
    exact retrieveAsString_grown hu
  | retrieveAllAsString =>
    obtain ⟨⟨r, u⟩, hu, h⟩ := bind_eq_ok.mp h
    cases h
    exact retrieveAsString_grown hu
  | readFd r =>
    obtain ⟨⟨n, u⟩, hu, h⟩ := bind_eq_ok.mp h
    cases h
    cases r with
    | error =>
      cases hu
      exact .of_length hcompact rfl
    | data bytes =>
      obtain ⟨v, hv, hu⟩ := bind_eq_ok.mp hu
      cases hu
      refine received_grown hcompact ?_ hv
      have hread : b.readableBytes + bytes.length ≤ M := hroom
      rw [List.length_take]
      omega

/-! ### Runs -/

/-- A call that is allowed, and with which no more than `M` bytes are readable or asked for. -/
def Demands (M : Nat) (s : Buffer × List Returned) (op : BufferOp) : Prop :=
  Allowed s op ∧ s.1.readableBytes + op.room ≤ M

instance (M : Nat) (s : Buffer × List Returned) (op : BufferOp) : Decidable (Demands M s op) :=
  inferInstanceAs (Decidable (_ ∧ _))

theorem run_grown (hcompact : Compact b) {ops : List BufferOp} {outputs : List Returned}
    (h : Along step (Demands M) (b, outputs) ops) :
    ∃ t outputs', run step (b, outputs) ops = .ok (t, outputs') ∧ Grown M b t := by
  obtain ⟨⟨t, outputs'⟩, hrun, hgrown⟩ := h.run_total (I := fun s => Grown M b s.1) (by
    rintro ⟨u, results⟩ op hgrown ⟨hallowed, hroom⟩
    obtain ⟨v, hv, -⟩ := perform_spec hallowed
    refine ⟨(v, results ++ [op.result u.readable]), by simp only [step, hv, ok_bind]; rfl, ?_⟩
    exact hgrown.trans (perform_grown hgrown.compact hroom hv)) (.of_length hcompact rfl)
  exact ⟨t, outputs', hrun, hgrown⟩

/-- A full vector whose readable bytes are close to its start grows by what is appended. -/
theorem append_full (data : Bytes) (hfull : b.writableBytes = 0) (hdata : 0 < data.length)
    (hfew : b.prependableBytes < data.length + kCheapPrepend) :
    ∃ t, b.append data = .ok t ∧ t.readerIndex = b.readerIndex ∧
      t.writerIndex = b.writerIndex + data.length ∧ t.buffer.length = t.writerIndex := by
  obtain ⟨r, hr, hreader, hwriter, hlength⟩ : ∃ r, b.ensureWriteableBytes data.length = .ok r ∧
      r.readerIndex = b.readerIndex ∧ r.writerIndex = b.writerIndex ∧
      r.buffer.length = b.writerIndex + data.length := by
    refine ⟨b.resize (b.writerIndex + data.length) (Nat.le_add_right _ _), ?_, rfl, rfl,
      length_resize _⟩
    have hroom : data.length ≤
        (b.resize (b.writerIndex + data.length) (Nat.le_add_right _ _)).writableBytes := by
      rw [writableBytes, length_resize]
      show data.length ≤ b.writerIndex + data.length - b.writerIndex
      omega
    rw [ensureWriteableBytes, if_pos (by omega), makeSpace, if_pos (by omega)]
    show check .ensureWriteableBytes _ >>= _ = _
    rw [decide_eq_true hroom, check_true]
    rfl
  have hroom : data.length ≤ r.writableBytes := by
    unfold writableBytes
    omega
  have hstored : data.length ≤ (r.store data).writableBytes := by
    show data.length ≤ (r.store data).buffer.length - r.writerIndex
    rw [length_store hroom]
    omega
  rw [append, hr, ok_bind, hasWritten, dif_pos hstored]
  refine ⟨_, rfl, hreader, congrArg (· + data.length) hwriter, ?_⟩
  show (r.store data).buffer.length = r.writerIndex + data.length
  rw [length_store hroom]
  omega

/-- Calls that grow the vector to the limit: most of what is readable is taken, and the rest is too
far from the start of the vector for what comes next, but not far enough to be moved. -/
def growing (n : Nat) : List BufferOp :=
  [.append (List.replicate (n + 1) 0), .retrieve n, .append (List.replicate (n + 1) 0)]

theorem growing_spec (n : Nat) : Along step (Demands (n + 2)) (new 0, []) (growing n) ∧
    ∃ t outputs, run step (new 0, []) (growing n) = .ok (t, outputs) ∧
      t.buffer.length = sizeLimit (n + 2) := by
  have hdata : (List.replicate (n + 1) (0 : UInt8)).length = n + 1 := List.length_replicate
  obtain ⟨t, ht, hreader, hwriter, hlength⟩ := append_full (b := new 0)
    (List.replicate (n + 1) 0) (by simp [new, writableBytes])
    (by omega) (by simp [new, prependableBytes])
  have hreserve : kCheapPrepend = 8 := rfl
  have hstart : (new 0).readerIndex = 8 ∧ (new 0).writerIndex = 8 := ⟨rfl, rfl⟩
  have hread : t.readableBytes = n + 1 := by
    unfold readableBytes
    omega
  obtain ⟨u, hu, hureader, huwriter, hubuffer⟩ : ∃ u, t.retrieve n = .ok u ∧
      u.readerIndex = t.readerIndex + n ∧ u.writerIndex = t.writerIndex ∧ u.buffer = t.buffer := by
    rw [retrieve, decide_eq_true (by omega), check_true, ok_bind, dif_pos (by omega)]
    exact ⟨_, rfl, rfl, rfl, rfl⟩
  obtain ⟨v, hv, -, hvwriter, hvlength⟩ := append_full (b := u)
    (List.replicate (n + 1) 0) (by unfold writableBytes; rw [hubuffer]; omega)
    (by omega) (by unfold prependableBytes; omega)
  have hfirst : step (new 0, []) (.append (List.replicate (n + 1) 0)) = .ok (t, [.void]) := by
    simp only [step, perform, ht, ok_bind]
    rfl
  have hsecond : step (t, [.void]) (.retrieve n) = .ok (u, [.void, .void]) := by
    simp only [step, perform, hu, ok_bind]
    rfl
  have hthird : step (u, [.void, .void]) (.append (List.replicate (n + 1) 0)) =
      .ok (v, [.void, .void, .void]) := by
    simp only [step, perform, hv, ok_bind]
    rfl
  constructor
  · rw [growing, along_cons_ok hfirst, along_cons_ok hsecond, along_cons_ok hthird]
    refine ⟨⟨trivial, ?_⟩, ⟨?_, ?_⟩, ⟨trivial, ?_⟩, trivial⟩
    · simp [BufferOp.room, new, readableBytes]
    · show n ≤ t.readableBytes
      omega
    · show t.readableBytes + 0 ≤ n + 2
      omega
    · show u.readableBytes + (List.replicate (n + 1) (0 : UInt8)).length ≤ n + 2
      unfold readableBytes
      omega
  · refine ⟨v, [.void, .void, .void], ?_, ?_⟩
    · rw [growing, run_cons, hfirst, ok_bind, run_cons, hsecond, ok_bind, run_singleton, hthird]
    · rw [sizeLimit]
      omega

/-- In every run of calls on a new buffer with a demand of at most `M` bytes the vector does not shrink
between any two points, and it grows no further than the limit.  The limit is reached by some calls
for every demand of two bytes or more. -/
theorem vector_bounded (initialSize M : Nat) (ops : List BufferOp)
    (hdemand : Along step (Demands M) (new initialSize, []) ops) :
    (∀ first second rest, ops = first ++ second ++ rest → ∃ t outputs u outputs',
      run step (new initialSize, []) first = .ok (t, outputs) ∧
      run step (t, outputs) second = .ok (u, outputs') ∧
      kCheapPrepend + initialSize ≤ t.buffer.length ∧ t.buffer.length ≤ u.buffer.length ∧
      u.buffer.length ≤ max (kCheapPrepend + initialSize) (sizeLimit M)) ∧
    (2 ≤ M → ∃ calls t outputs, Along step (Demands M) (new 0, []) calls ∧
      run step (new 0, []) calls = .ok (t, outputs) ∧ t.buffer.length = sizeLimit M) := by
  constructor
  · rintro first second rest rfl
    have hstart : (new initialSize).buffer.length = kCheapPrepend + initialSize :=
      List.length_replicate
    obtain ⟨t, outputs, hfirst, hgrown⟩ := run_grown (fun _ => rfl) hdemand.left.left
    obtain ⟨u, outputs', hsecond, hgrown'⟩ := run_grown hgrown.compact
      ((along_append_ok hfirst).mp hdemand.left).2
    rw [← hstart]
    exact ⟨t, outputs, u, outputs', hfirst, hsecond, hgrown.ge, hgrown'.ge,
      (hgrown.trans hgrown').le⟩
  · intro hM
    obtain ⟨n, rfl⟩ := Nat.exists_eq_add_of_le' hM
    obtain ⟨hcalls, t, outputs, hrun, hlength⟩ := growing_spec n
    exact ⟨growing n, t, outputs, hcalls, hrun, hlength⟩

theorem vector_bounded_five :
    ∃ t outputs u outputs', run step (new 4, []) [.append [1, 2, 3, 4, 5]] = .ok (t, outputs) ∧
      run step (t, outputs) [.retrieve 4, .readFd (.data [6, 7, 8, 9])] = .ok (u, outputs') ∧
      12 ≤ t.buffer.length ∧ t.buffer.length ≤ u.buffer.length ∧ u.buffer.length ≤ 16 :=
  (vector_bounded 4 5 [.append [1, 2, 3, 4, 5], .retrieve 4, .readFd (.data [6, 7, 8, 9])]
    (by decide)).1 [.append [1, 2, 3, 4, 5]] [.retrieve 4, .readFd (.data [6, 7, 8, 9])] [] rfl

end Buffer

end Mymuduo
