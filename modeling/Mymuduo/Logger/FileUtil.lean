import Mathlib.Order.Lattice.Nat
import Mymuduo.Base.Fault
import Mymuduo.Logger.LogStream

/-! A file that is appended to.  `append` writes until all of the data has been taken, whatever the
single writes return. -/

namespace Mymuduo

/-- What the calls of `fwrite_unlocked` come to, one after another: how many bytes a call takes at
most, and what `ferror` returns after it. -/
structure Writes where
  takes : Nat → Nat
  ferror : Nat → Int32

/-- A `FileUtil`: `pieces` is what the calls of `fwrite_unlocked` have taken, call by call. -/
structure FileUtil where
  fileName : Bytes
  pieces : List Bytes
  writtenBytes : Int
  deriving DecidableEq, Repr

/-- The loop of `append`: the file, how much of the data has been written, and the lines that have
been printed to `stderr`. -/
structure FileUtil.Loop where
  file : FileUtil
  written : Nat
  stderr : List Bytes

namespace FileUtil

/-- `FileUtil::FileUtil` -/
def new (fileName : Bytes) : FileUtil where
  fileName := fileName
  pieces := []
  writtenBytes := 0

/-- The bytes that have been handed over. -/
def content (f : FileUtil) : Bytes := f.pieces.flatten

variable (w : Writes) (getErrnoMsg : Int32 → CString)

/-- What the next call returns for `remain` bytes. -/
def result (f : FileUtil) (remain : Nat) : Nat := min (w.takes f.pieces.length) remain

def write (f : FileUtil) (data : Bytes) : FileUtil × Nat :=
  let n := f.result w data.length
  ({ f with pieces := f.pieces ++ [data.take n] }, n)

/-- One turn of the loop. -/
def turn (data : Bytes) (l : Loop) : Loop :=
  let remain := data.length - l.written
  let (file, n) := l.file.write w (data.drop l.written)
  let err := w.ferror l.file.pieces.length
  let stderr :=
    if n ≠ remain ∧ err ≠ 0 then
      l.stderr ++ [ofString "FileUtil::append() failed " ++ (getErrnoMsg err).val ++ ofString "\n"]
    else
      l.stderr
  { file := file, written := l.written + n, stderr := stderr }

/-- The loop, for `fuel` turns at most. -/
def appendLoop (data : Bytes) : Nat → Loop → Loop
  | 0, l => l
  | fuel + 1, l =>
    if l.written ≠ data.length then appendLoop data fuel (turn w getErrnoMsg data l) else l

/-- `FileUtil::append`, if it returns after `fuel` writes at most: the file, and what has been printed
to `stderr`. -/
def append (fuel : Nat) (f : FileUtil) (data : Bytes) : Option (FileUtil × List Bytes) :=
  let l := appendLoop w getErrnoMsg data fuel { file := f, written := 0, stderr := [] }
  if l.written = data.length then
    some ({ l.file with writtenBytes := l.file.writtenBytes + l.written }, l.stderr)
  else
    none

/-! ### What has been written -/

variable {w}

/-- What `turns` calls take from the `first` one on, as long as there is data. -/
def taken (w : Writes) (first turns : Nat) : Nat :=
  ((List.range turns).map fun i => w.takes (first + i)).sum

theorem taken_succ (w : Writes) (first turns : Nat) :
    taken w first (turns + 1) = taken w first turns + w.takes (first + turns) := by
  rw [taken, List.range_succ, List.map_append, List.sum_append]
  simp [taken]

theorem taken_le (w : Writes) (first : Nat) {m n : Nat} (h : m ≤ n) :
    taken w first m ≤ taken w first n := by
  induction n, h using Nat.le_induction with
  | base => exact Nat.le_refl _
  | succ n _ ih =>
    rw [taken_succ]
    omega

/-- After any number of turns from `f`: a beginning of the data has been handed over, piece by piece,
in as many pieces as there were calls. -/
def Written (w : Writes) (f : FileUtil) (data : Bytes) (l : Loop) : Prop :=
  ∃ pieces, l.file = { f with pieces := f.pieces ++ pieces } ∧
    pieces.flatten = data.take l.written ∧
    l.written = min (taken w f.pieces.length pieces.length) data.length

theorem written_start (w : Writes) (f : FileUtil) (data : Bytes) :
    Written w f data { file := f, written := 0, stderr := [] } := by
  refine ⟨[], ?_, rfl, ?_⟩
  · rw [List.append_nil]
  · exact (Nat.zero_min _).symm

theorem written_turn {f : FileUtil} {data : Bytes} {l : Loop} (h : Written w f data l) :
    Written w f data (turn w getErrnoMsg data l) ∧
      (turn w getErrnoMsg data l).file.pieces.length = l.file.pieces.length + 1 := by
  obtain ⟨pieces, hfile, hflatten, hwritten⟩ := h
  let n := min (w.takes (f.pieces.length + pieces.length)) (data.length - l.written)
  have hresult : l.file.result w (data.drop l.written).length = n := by
    rw [result, hfile, List.length_append, List.length_drop]
  have hturn : (turn w getErrnoMsg data l).file =
      { l.file with pieces := l.file.pieces ++ [(data.drop l.written).take n] } := by
    rw [← hresult]
    rfl
  have hnext : (turn w getErrnoMsg data l).written = l.written + n := by
    rw [← hresult]
    rfl
  refine ⟨⟨pieces ++ [(data.drop l.written).take n], ?_, ?_, ?_⟩, ?_⟩
  · rw [hturn, hfile, List.append_assoc]
  · rw [hnext, List.flatten_append, hflatten, List.take_add]
    simp
  · rw [hnext, List.length_append, List.length_singleton, taken_succ]
    omega
  · rw [hturn, List.length_append, List.length_singleton]

/-- Until everything is written, there is a call for each turn. -/
theorem written_loop {f : FileUtil} {data : Bytes} (fuel : Nat) {l : Loop}
    (h : Written w f data l) :
    let m := appendLoop w getErrnoMsg data fuel l
    Written w f data m ∧
      (m.written = data.length ∨ m.file.pieces.length = l.file.pieces.length + fuel) := by
  induction fuel generalizing l with
  | zero => exact ⟨h, .inr rfl⟩
  | succ fuel ih =>
    rw [appendLoop]
    split
    · obtain ⟨hturn, hlength⟩ := written_turn getErrnoMsg h
      obtain ⟨hwritten, hcalls⟩ := ih hturn
      refine ⟨hwritten, hcalls.imp id ?_⟩
      intro hpieces
      omega
    · rename_i hall
      exact ⟨h, .inl (not_not.mp hall)⟩

/-- What has been handed over is a beginning of the data, at any moment. -/
theorem content_appendLoop (f : FileUtil) (data : Bytes) (fuel : Nat) :
    let l := appendLoop w getErrnoMsg data fuel { file := f, written := 0, stderr := [] }
    l.file.content = f.content ++ data.take l.written := by
  obtain ⟨⟨pieces, hfile, hflatten, -⟩, -⟩ :=
    written_loop getErrnoMsg fuel (written_start w f data)
  dsimp only
  rw [hfile, content, content, List.flatten_append, hflatten]

/-- With calls that take enough, `append` returns. -/
theorem append_of_taken {f : FileUtil} {data : Bytes} {turns : Nat}
    (h : data.length ≤ taken w f.pieces.length turns) :
    ∃ stderr pieces, f.append w getErrnoMsg turns data =
        some ({ f with pieces := f.pieces ++ pieces,
                       writtenBytes := f.writtenBytes + data.length }, stderr) ∧
      pieces.flatten = data := by
  let l := appendLoop w getErrnoMsg data turns { file := f, written := 0, stderr := [] }
  obtain ⟨⟨pieces, hfile, hflatten, hwritten⟩, hcalls⟩ :
      Written w f data l ∧ (l.written = data.length ∨ l.file.pieces.length = _ + turns) :=
    written_loop getErrnoMsg turns (written_start w f data)
  have hall : l.written = data.length := by
    refine hcalls.elim id ?_
    intro hpieces
    rw [hfile, List.length_append] at hpieces
    have hlength : pieces.length = turns := Nat.add_left_cancel hpieces
    rw [hlength] at hwritten
    omega
  refine ⟨l.stderr, pieces, ?_, by rw [hflatten, hall, List.take_length]⟩
  refine (if_pos hall).trans ?_
  rw [hall, hfile]

/-- The data is written if and only if the calls take enough of it at some time. -/
theorem append_returns {f : FileUtil} {data : Bytes} :
    (∃ fuel stderr pieces, f.append w getErrnoMsg fuel data =
        some ({ f with pieces := f.pieces ++ pieces,
                       writtenBytes := f.writtenBytes + data.length }, stderr) ∧
      pieces.flatten = data) ↔
    ∃ turns, data.length ≤ taken w f.pieces.length turns := by
  constructor
  · rintro ⟨fuel, stderr, pieces, happend, -⟩
    obtain ⟨⟨pieces, hfile, hflatten, hwritten⟩, -⟩ :=
      written_loop getErrnoMsg fuel (written_start w f data)
    rw [append] at happend
    dsimp only at happend
    split at happend
    · refine ⟨pieces.length, ?_⟩
      omega
    · cases happend
  · rintro ⟨turns, hturns⟩
    exact ⟨turns, append_of_taken getErrnoMsg hturns⟩

/-- The calls never take enough if and only if they come to take nothing. -/
theorem taken_lt_iff (w : Writes) (first len : Nat) :
    (∀ turns, taken w first turns < len) ↔
      ∃ turns, taken w first turns < len ∧ ∀ i, turns ≤ i → w.takes (first + i) = 0 := by
  constructor
  · intro h
    -- A turn behind which no more is taken.
    have hbound : BddAbove (Set.range (taken w first)) := by
      refine ⟨len, ?_⟩
      rintro _ ⟨turns, rfl⟩
      exact Nat.le_of_lt (h turns)
    obtain ⟨turns, hturns⟩ := Nat.sSup_mem (Set.range_nonempty (taken w first)) hbound
    refine ⟨turns, h turns, ?_⟩
    intro i hi
    have hle := le_csSup hbound ⟨i + 1, rfl⟩
    rw [← hturns, taken_succ] at hle
    have hge := taken_le w first hi
    omega
  · rintro ⟨k, hlt, hzero⟩ turns
    have hlater : ∀ i, k ≤ i → taken w first i = taken w first k := by
      intro i hi
      induction i, hi using Nat.le_induction with
      | base => rfl
      | succ i hi ih => rw [taken_succ, ih, hzero i hi, Nat.add_zero]
    rcases Nat.le_total turns k with hle | hle
    · exact Nat.lt_of_le_of_lt (taken_le w first hle) hlt
    · rwa [hlater turns hle]

/-- For every sequence of results: `append` returns, having handed over the data in consecutive pieces
and counted its bytes, exactly if the calls do not, with data left to write, take nothing from some
call on. -/
theorem append_exact_iff (w : Writes) (f : FileUtil) (data : Bytes) :
    (∃ fuel stderr pieces, f.append w getErrnoMsg fuel data =
        some ({ f with pieces := f.pieces ++ pieces,
                       writtenBytes := f.writtenBytes + data.length }, stderr) ∧
      pieces.flatten = data) ↔
    ¬ ∃ turns, taken w f.pieces.length turns < data.length ∧
      ∀ i, turns ≤ i → w.takes (f.pieces.length + i) = 0 := by
  rw [append_returns, ← taken_lt_iff]
  simp only [not_forall, Nat.not_lt]

/-- A full disk: no call takes anything, and each of them leaves an error. -/
def fullDisk : Writes where
  takes := fun _ => 0
  ferror := fun _ => 1

/-- On a full disk, `append` does not return. -/
theorem append_fullDisk : ¬ ∃ fuel r, (new (ofString "log")).append fullDisk
    (fun _ => emptyCString) fuel [65] = some r := by
  rintro ⟨fuel, r, hreturns⟩
  obtain ⟨⟨pieces, -, -, hwritten⟩, -⟩ :=
    written_loop (fun _ => emptyCString) fuel
      (written_start fullDisk (new (ofString "log")) [65])
  have hzero : ∀ first turns, taken fullDisk first turns = 0 := by
    intro first turns
    induction turns with
    | zero => rfl
    | succ turns ih =>
      rw [taken_succ, ih]
      rfl
  rw [hzero, Nat.zero_min] at hwritten
  rw [append, if_neg (by rw [hwritten]; decide)] at hreturns
  cases hreturns

end FileUtil

end Mymuduo
