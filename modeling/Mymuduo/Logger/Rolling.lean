import Mymuduo.Logger.LogFile

/-! Rolling: nothing that is appended is lost, and the files do not grow too large, as long as each
new file has a name of its own. -/

namespace Mymuduo

open Lib

theorem FileUtil.append_complete (f : FileUtil) (data : Bytes) (getErrnoMsg : Int32 → CString) :
    ∃ stderr pieces, f.append (.complete data) getErrnoMsg 1 data =
        some ({ f with pieces := f.pieces ++ pieces,
                       writtenBytes := f.writtenBytes + data.length }, stderr) ∧
      pieces.flatten = data := by
  apply append_of_taken
  rw [taken_succ]
  exact Nat.le_add_left ..

namespace Disk

theorem fopen_of_fresh {disk : Disk} {name : Bytes} (h : ∀ d ∈ disk, d.name ≠ name) (now : Int) :
    disk.fopen name now = disk ++ [{ name := name, created := now, content := [] }] := by
  refine if_neg ?_
  simpa using h

/-- A write to the last file leaves the others alone. -/
theorem write_last {older : Disk} {d : DiskFile} (h : ∀ e ∈ older, e.name ≠ d.name) (data : Bytes) :
    write (older ++ [d]) d.name data = older ++ [{ d with content := d.content ++ data }] := by
  have holder : older.map (fun e => if e.name = d.name then { e with content := e.content ++ data }
      else e) = older := by
    exact (List.map_congr_left fun e he => if_neg (h e he)).trans (List.map_id' older)
  rw [write, List.map_append, holder, List.map_singleton, if_pos rfl]

end Disk

namespace LogFile

/-- Nothing that was appended is lost, and the files do not grow too large. -/
structure Kept (w : LogWorld) (appended : Bytes) : Prop where
  contents : w.disk.flatMap DiskFile.content = appended
  created : w.disk.Pairwise fun d e => d.created < e.created
  size : ∃ f d, w.log.file = some f ∧ d ∈ w.disk ∧ d.name = f.fileName ∧
    (d.content.length ≤ w.log.rollSize ∨ d.created = w.now)
  period : w.log.startOfPeriod = w.log.lastRoll.tdiv kRollPerSeconds * kRollPerSeconds
  count : 0 ≤ w.log.count ∧ w.log.count < w.log.checkEveryN

/-- The file that is written to is the last one on the disk. -/
structure Current (w : LogWorld) (older : Disk) (d : DiskFile) (f : FileUtil) : Prop where
  disk : w.disk = older ++ [d]
  file : w.log.file = some f
  name : d.name = f.fileName
  length : d.content.length = f.writtenBytes
  created : d.created = w.log.lastRoll

/-- The files, whether or not one of them is open. -/
structure Files (zones : Zones) (w : LogWorld) (appended : Bytes) : Prop where
  named : ∀ d ∈ w.disk, d.name = getLogFileName zones w.log.basename d.created
  names : (w.disk.map DiskFile.name).Nodup
  contents : w.disk.flatMap DiskFile.content = appended
  created : w.disk.Pairwise fun d e => d.created < e.created
  created_le : ∀ d ∈ w.disk, d.created ≤ w.log.lastRoll
  count : 0 ≤ w.log.count ∧ w.log.count < w.log.checkEveryN

/-- What holds between two statements, the bound on the size apart. -/
structure Sound (zones : Zones) (w : LogWorld) (appended : Bytes) : Prop
    extends Files zones w appended where
  current : ∃ older d f, Current w older d f
  clock : w.log.lastRoll ≤ w.now
  period : w.log.startOfPeriod = w.log.lastRoll.tdiv kRollPerSeconds * kRollPerSeconds

/-- The current file is not too large, or was created in the current second. -/
def Small (w : LogWorld) : Prop :=
  (∃ f, w.log.file = some f ∧ f.writtenBytes ≤ w.log.rollSize) ∨ w.log.lastRoll = w.now

variable {zones : Zones} {w : LogWorld} {appended : Bytes}

theorem Sound.kept (h : Sound zones w appended) (hsmall : Small w) :
    Kept w appended := by
  obtain ⟨older, d, f, hcurrent⟩ := h.current
  refine ⟨h.contents, h.created, ⟨f, d, hcurrent.file, ?_, hcurrent.name, ?_⟩, h.period, h.count⟩
  · rw [hcurrent.disk]
    exact List.mem_append_right older (List.mem_singleton_self d)
  · rcases hsmall with ⟨g, hg, hle⟩ | hnow
    · obtain rfl := Option.some.inj (hcurrent.file.symm.trans hg)
      rw [hcurrent.length]
      exact .inl hle
    · exact .inr (hcurrent.created.trans hnow)

/-- Another file is opened, with a name of its own. -/
theorem Files.roll {now : Int} (h : Files zones w appended) (hroll : w.log.lastRoll < now)
    (hfresh : ∀ d ∈ w.disk, d.name ≠ getLogFileName zones w.log.basename now) :
    Sound zones (rollFile zones w now).1 appended ∧ Small (rollFile zones w now).1 := by
  let filename := getLogFileName zones w.log.basename now
  have hdisk : w.disk.fopen filename now = w.disk ++ [⟨filename, now, []⟩] :=
    Disk.fopen_of_fresh hfresh now
  rw [rollFile]
  dsimp only
  rw [if_pos hroll, hdisk]
  refine ⟨{ named := ?_, names := ?_, contents := ?_, created := ?_, created_le := ?_, count := h.count
            current := ?_, clock := Int.le_refl now, period := rfl }, .inr rfl⟩
  · intro d hd
    rcases List.mem_append.mp hd with hd | hd
    · exact h.named d hd
    · rw [List.mem_singleton.mp hd]
  · rw [List.map_append, List.map_singleton, List.nodup_append]
    refine ⟨h.names, List.nodup_singleton _, ?_⟩
    intro name hname _ hnew
    obtain ⟨d, hd, rfl⟩ := List.mem_map.mp hname
    rw [List.mem_singleton.mp hnew]
    exact hfresh d hd
  · rw [List.flatMap_append, h.contents]
    exact List.append_nil _
  · rw [List.pairwise_append]
    refine ⟨h.created, List.pairwise_singleton .., ?_⟩
    intro d hd e he
    rw [List.mem_singleton.mp he]
    exact Int.lt_of_le_of_lt (h.created_le d hd) hroll
  · intro d hd
    rcases List.mem_append.mp hd with hd | hd
    · exact Int.le_of_lt (Int.lt_of_le_of_lt (h.created_le d hd) hroll)
    · rw [List.mem_singleton.mp hd]
  · exact ⟨w.disk, ⟨filename, now, []⟩, .new filename, rfl, rfl, rfl, rfl, rfl⟩

/-- A roll, to a file with a name of its own if there is one. -/
theorem Sound.roll {now : Int} (h : Sound zones w appended) (hnow : w.now ≤ now)
    (hfresh : w.log.lastRoll < now →
      ∀ d ∈ w.disk, d.name ≠ getLogFileName zones w.log.basename now) :
    Sound zones (rollFile zones w now).1 appended ∧ Small (rollFile zones w now).1 := by
  by_cases hroll : w.log.lastRoll < now
  · exact h.toFiles.roll hroll (hfresh hroll)
  · have hlast : w.log.lastRoll = now := by
      have hclock := h.clock
      omega
    rw [rollFile]
    dsimp only
    rw [if_neg hroll]
    obtain ⟨older, d, f, hcurrent⟩ := h.current
    exact ⟨{ h with
      current := ⟨older, d, f, { hcurrent with }⟩
      clock := Int.le_of_eq hlast }, .inr hlast⟩

/-- The clock goes on, and what is counted changes. -/
theorem Sound.advance {count lastFlush now : Int} (h : Sound zones w appended)
    (hcount : 0 ≤ count ∧ count < w.log.checkEveryN) (hnow : w.now ≤ now) :
    Sound zones { w with log := { w.log with count := count, lastFlush := lastFlush }, now := now }
      appended := by
  obtain ⟨older, d, f, hcurrent⟩ := h.current
  exact { h with
    count := hcount
    clock := Int.le_trans h.clock hnow
    current := ⟨older, d, f, { hcurrent with }⟩ }

theorem sound_new (zones : Zones) (basename : Bytes) (rollSize flushInterval : Int)
    {checkEveryN now : Int} (hcheck : 1 ≤ checkEveryN) (hnow : 0 < now) :
    Sound zones (new zones basename rollSize flushInterval checkEveryN now) [] ∧
      Small (new zones basename rollSize flushInterval checkEveryN now) :=
  Files.roll ⟨by simp, List.nodup_nil, rfl, .nil, by simp, Int.le_refl 0, hcheck⟩ hnow (by simp)

/-- What is written to the last file. -/
theorem Files.write {older : Disk} {d : DiskFile} (h : Files zones w appended)
    (hdisk : w.disk = older ++ [d]) (file : Option FileUtil) (data : Bytes) :
    Files zones { w with
      log := { w.log with file := file }
      disk := older ++ [{ d with content := d.content ++ data }] } (appended ++ data) := by
  obtain ⟨hnamed, hnames, hcontents, hcreated, hle, hcount⟩ := h
  rw [hdisk] at hnamed hnames hcontents hcreated hle
  refine ⟨?_, ?_, ?_, ?_, ?_, hcount⟩
  · intro e he
    rcases List.mem_append.mp he with he | he
    · exact hnamed e (List.mem_append_left _ he)
    · rw [List.mem_singleton.mp he]
      exact hnamed d (List.mem_append_right _ (List.mem_singleton_self d))
  · rw [List.map_append, List.map_singleton] at hnames ⊢
    exact hnames
  · rw [← hcontents, List.flatMap_append, List.flatMap_append, List.append_assoc]
    simp
  · rw [List.pairwise_append] at hcreated ⊢
    refine ⟨hcreated.1, List.pairwise_singleton .., ?_⟩
    intro e he e' he'
    rw [List.mem_singleton.mp he']
    exact hcreated.2.2 e he d (List.mem_singleton_self d)
  · intro e he
    rcases List.mem_append.mp he with he | he
    · exact hle e (List.mem_append_left _ he)
    · rw [List.mem_singleton.mp he]
      exact hle d (List.mem_append_right _ (List.mem_singleton_self d))

/-- What is appended goes to the last file. -/
theorem Sound.appendFile (h : Sound zones w appended) (data : Bytes) :
    ∃ f g disk, w.log.file = some f ∧ g.writtenBytes = f.writtenBytes + data.length ∧
      disk.map DiskFile.name = w.disk.map DiskFile.name ∧
      appendFile w data = .ok ({ w with log := { w.log with file := some g }, disk := disk }, g) ∧
      Sound zones { w with log := { w.log with file := some g }, disk := disk } (appended ++ data) := by
  obtain ⟨older, d, f, hdisk, hfile, hname, hlength, hcreated⟩ := h.current
  obtain ⟨stderr, pieces, happend, hpieces⟩ :=
    f.append_complete data fun _ => emptyCString
  let g : FileUtil := { f with
    pieces := f.pieces ++ pieces
    writtenBytes := f.writtenBytes + data.length }
  have hnames := h.names
  rw [hdisk, List.map_append, List.map_singleton, List.nodup_append] at hnames
  have hwrite : w.disk.write f.fileName data =
      older ++ [{ d with content := d.content ++ data }] := by
    rw [hdisk, ← hname]
    refine Disk.write_last ?_ data
    intro e he
    exact hnames.2.2 e.name (List.mem_map_of_mem he) d.name (List.mem_singleton_self _)
  refine ⟨f, g, older ++ [{ d with content := d.content ++ data }], hfile, rfl, ?_, ?_, ?_⟩
  · rw [hdisk, List.map_append, List.map_append]
    rfl
  · rw [LogFile.appendFile, hfile]
    dsimp only
    rw [happend]
    dsimp only
    rw [List.drop_left, hpieces, hwrite]
  · refine { h.toFiles.write hdisk (some g) data with
      current := ⟨older, _, g, rfl, rfl, hname, ?_, hcreated⟩
      clock := h.clock
      period := h.period }
    rw [List.length_append, Int.natCast_add, hlength]

/-- A call, with a name of its own for the file that it goes on with. -/
theorem sound_call {c : Call} (h : Sound zones w appended) (hsmall : Small w)
    (hfresh : FreshName zones w c) :
    ∃ t, call zones w c = .ok t ∧ Sound zones t (appended ++ c.data) ∧ Small t := by
  cases c with
  | append data d₁ d₂ =>
    obtain ⟨f, g, disk, hfile, hwritten, hnames, happend, hsound⟩ := h.appendFile data
    -- The write does not change the names that are taken.
    have hnew : ∀ now, rollsAt w (.append data d₁ d₂) = some now → w.log.lastRoll < now →
        ∀ d ∈ disk, d.name ≠ getLogFileName zones w.log.basename now := by
      intro now hrolls hroll d hd
      have hname := List.mem_map_of_mem (f := DiskFile.name) hd
      rw [hnames] at hname
      obtain ⟨e, he, heq⟩ := List.mem_map.mp hname
      rw [← heq]
      exact hfresh now hrolls hroll e he
    rw [rollsAt, hfile, Option.map_some, Option.getD_some, ← hwritten] at hnew
    rw [call, appendUnLocked, happend, ok_bind]
    dsimp only [Call.data]
    split
    · rename_i hlarge
      rw [if_pos hlarge] at hnew
      exact ⟨_, rfl, hsound.roll (by dsimp only; omega) (hnew _ rfl)⟩
    · rename_i hlarge
      have hle : g.writtenBytes ≤ w.log.rollSize := Int.not_lt.mp hlarge
      rw [if_neg hlarge] at hnew
      have hcount := hsound.count
      dsimp only at hcount
      have hmany : 0 ≤ (0 : Int) ∧ 0 < w.log.checkEveryN := by omega
      split
      · rename_i hcheck
        have hlater : w.now ≤ w.now + d₁ := by omega
        split
        · rename_i hperiod
          rw [if_pos ⟨hcheck, hperiod⟩] at hnew
          exact ⟨_, rfl, (hsound.advance hmany hlater).roll (by dsimp only; omega) (hnew _ rfl)⟩
        · split
          · exact ⟨_, rfl, hsound.advance hmany hlater, .inl ⟨g, rfl, hle⟩⟩
          · exact ⟨_, rfl, hsound.advance hmany hlater, .inl ⟨g, rfl, hle⟩⟩
      · rename_i hcheck
        have hfew : 0 ≤ w.log.count + 1 ∧ w.log.count + 1 < w.log.checkEveryN := by omega
        exact ⟨_, rfl, hsound.advance hfew (Int.le_refl _), .inl ⟨g, rfl, hle⟩⟩
  | rollFile d =>
    refine ⟨_, rfl, ?_⟩
    rw [Call.data, List.append_nil]
    exact h.roll (by omega) fun hroll => hfresh (w.now + d) rfl hroll
  | flush =>
    obtain ⟨older, d, f, hcurrent⟩ := h.current
    refine ⟨w, ?_, ?_, hsmall⟩
    · rw [call, flush, hcurrent.file]
    · rwa [Call.data, List.append_nil]

/-! ### The names of the files -/

/-- Different local times have different names. -/
theorem strftime_injective {z y : Zone} {s u : Int}
    (h : strftime (localtime z s) = strftime (localtime y u)) : localtime z s = localtime y u := by
  obtain ⟨hmon, hmday, hhour, hmin, hsec⟩ := localtime_fields z s
  obtain ⟨hmon', hmday', hhour', hmin', hsec'⟩ := localtime_fields y u
  generalize localtime z s = a at *
  generalize localtime y u = b at *
  have htwo : ∀ n : Int, 0 ≤ n → n < 10 ^ 2 → (formatZero 2 n).length = 2 := by
    intro n hlow hhigh
    rw [formatZero_of_nonneg (by decide) hlow hhigh, length_lastDigits]
  unfold strftime at h
  -- From the last field to the first one: each has the same length on both sides.
  obtain ⟨h, hseq⟩ := List.append_inj' h
    (by rw [htwo _ hsec.1 (by omega), htwo _ hsec'.1 (by omega)])
  obtain ⟨h, hmineq⟩ := List.append_inj' h
    (by rw [htwo _ hmin.1 (by omega), htwo _ hmin'.1 (by omega)])
  obtain ⟨h, hhoureq⟩ := List.append_inj' h
    (by rw [htwo _ hhour.1 (by omega), htwo _ hhour'.1 (by omega)])
  obtain ⟨h, -⟩ := List.append_inj' h rfl
  obtain ⟨h, hmdayeq⟩ := List.append_inj' h
    (by rw [htwo _ hmday.1 (by omega), htwo _ hmday'.1 (by omega)])
  obtain ⟨hyear, hmoneq⟩ := List.append_inj' h
    (by rw [htwo (a.mon + 1) (by omega) (by omega), htwo (b.mon + 1) (by omega) (by omega)])
  have hyear := toDecimal_injective hyear
  have hmoneq := formatZero_injective (by decide) ⟨by omega, by omega⟩ ⟨by omega, by omega⟩ hmoneq
  have hmdayeq := formatZero_injective (by decide) ⟨hmday.1, by omega⟩ ⟨hmday'.1, by omega⟩ hmdayeq
  have hhoureq := formatZero_injective (by decide) ⟨hhour.1, by omega⟩ ⟨hhour'.1, by omega⟩ hhoureq
  have hmineq := formatZero_injective (by decide) ⟨hmin.1, by omega⟩ ⟨hmin'.1, by omega⟩ hmineq
  have hseq := formatZero_injective (by decide) ⟨hsec.1, by omega⟩ ⟨hsec'.1, by omega⟩ hseq
  cases a
  cases b
  dsimp only at *
  congr 1 <;> omega

/-- The names come back only where the local time does. -/
theorem getLogFileName_eq_iff {zones : Zones} {basename : Bytes} {s u : Int} :
    getLogFileName zones basename s = getLogFileName zones basename u ↔
      localtime (zones s) s = localtime (zones u) u := by
  constructor
  · intro h
    have hname := List.append_cancel_left (List.append_cancel_right h)
    exact strftime_injective (List.append_cancel_left hname)
  · intro h
    rw [getLogFileName, getLogFileName, h]

/-- While the local time does not come back, each new file has a name of its own. -/
theorem Sound.freshName (h : Sound zones w appended)
    (hzones : ∀ s u, s < u → localtime (zones s) s ≠ localtime (zones u) u) (c : Call) :
    FreshName zones w c := by
  intro now _ hroll d hd
  rw [h.named d hd, Ne, getLogFileName_eq_iff]
  exact hzones _ _ (Int.lt_of_le_of_lt (h.created_le d hd) hroll)

/-! ### Runs -/

theorem sound_run {basename : Bytes} {rollSize flushInterval checkEveryN start : Int}
    (hcheck : 1 ≤ checkEveryN) (hstart : 0 < start) {calls : List Call}
    (hfresh : Along (call zones) (FreshName zones)
      (new zones basename rollSize flushInterval checkEveryN start) calls) :
    ∃ t, run (call zones) (new zones basename rollSize flushInterval checkEveryN start) calls =
        .ok t ∧ Sound zones t (calls.flatMap Call.data) ∧ Small t := by
  have hstep : ∀ w appended c, Sound zones w appended ∧ Small w → FreshName zones w c →
      ∃ t, call zones w c = .ok t ∧ Sound zones t (appended ++ c.data) ∧ Small t :=
    fun _ _ _ h hc => sound_call h.1 h.2 hc
  obtain ⟨t, ht, hsound, hsmall⟩ := hfresh.run_simulates
    (R := fun w appended => Sound zones w appended ∧ Small w) hstep
    (sound_new zones basename rollSize flushInterval hcheck hstart)
  rw [List.foldl_append_eq_append, List.nil_append, ← List.flatMap_def] at hsound
  exact ⟨t, ht, hsound, hsmall⟩

/-- In a zone with a fixed offset, every run keeps what is appended. -/
theorem kept_of_fixed_offset (z : Zone) (basename : Bytes) (rollSize flushInterval : Int)
    {checkEveryN start : Int} (hcheck : 1 ≤ checkEveryN) (hstart : 0 < start) (calls : List Call) :
    ∃ t, run (call fun _ => z) (new (fun _ => z) basename rollSize flushInterval checkEveryN start)
        calls = .ok t ∧ Kept t (calls.flatMap Call.data) := by
  have hzones : ∀ s u, s < u → localtime z s ≠ localtime z u :=
    fun s u hlt heq => Int.ne_of_lt hlt (localtime_injective heq)
  have hfresh : Along (call fun _ => z) (FreshName fun _ => z)
      (new (fun _ => z) basename rollSize flushInterval checkEveryN start) calls := by
    refine Along.imp (P := fun _ _ => True)
      (I := fun w => ∃ appended, Sound (fun _ => z) w appended ∧ Small w) ?_ ?_
      ⟨[], sound_new (fun _ => z) basename rollSize flushInterval hcheck hstart⟩
      (along_of_mem fun _ _ _ => trivial)
    · rintro w c t ⟨appended, hsound, hsmall⟩ - ht
      obtain ⟨u, hu, h⟩ := sound_call hsound hsmall (hsound.freshName hzones c)
      obtain rfl := Except.ok.inj (ht.symm.trans hu)
      exact ⟨_, h⟩
    · rintro w c ⟨appended, hsound, -⟩ -
      exact hsound.freshName hzones c
  obtain ⟨t, ht, hsound, hsmall⟩ := sound_run hcheck hstart hfresh
  exact ⟨t, ht, hsound.kept hsmall⟩

/-- In every run that gives each new file a name that no file has: nothing is lost, the files are
created in different seconds, and the current one is not too large or was created in the current
second. -/
theorem kept_of_fresh (zones : Zones) (basename : Bytes) (rollSize flushInterval : Int)
    {checkEveryN start : Int} (hcheck : 1 ≤ checkEveryN) (hstart : 0 < start) {calls : List Call}
    (hfresh : Along (call zones) (FreshName zones)
      (new zones basename rollSize flushInterval checkEveryN start) calls) :
    ∃ t, run (call zones) (new zones basename rollSize flushInterval checkEveryN start) calls =
        .ok t ∧ Kept t (calls.flatMap Call.data) := by
  obtain ⟨t, ht, hsound, hsmall⟩ := sound_run hcheck hstart hfresh
  exact ⟨t, ht, hsound.kept hsmall⟩

instance (w : LogWorld) (c : Call) : Decidable (FreshName zones w c) :=
  inferInstanceAs (Decidable (∀ now ∈ rollsAt w c, w.log.lastRoll < now →
    ∀ d ∈ w.disk, d.name ≠ getLogFileName zones w.log.basename now))

/-- Half a minute in a zone with a fixed offset, with a roll after two bytes. -/
def twoRolls : List Call := [.append [65, 66] 1 0, .append [67] 1 0, .rollFile 28, .flush]

def fixedZones : Zones := fun _ => .utc

theorem kept_of_fresh_twoRolls :
    ∃ t, run (call fixedZones) (new fixedZones [97] 1 3 1024 1) twoRolls = .ok t ∧
      Kept t [65, 66, 67] :=
  kept_of_fresh fixedZones [97] 1 3 (by decide) (by decide) (by decide +kernel)

/-- The zone of New York in the autumn of 2024, when the clocks are set back by an hour. -/
def newYork : Zones := fun now =>
  if now < 1730613600 then ⟨-14400, by decide⟩ else ⟨-18000, by decide⟩

/-- An hour between two rolls that see the same local time. -/
def anHourApart : List Call :=
  [.append [97] 0 0, .rollFile 1800, .append [98] 0 0, .rollFile 1800, .append [99] 0 0]

/-- The name of the first file comes back, and what is appended then follows what it holds. -/
theorem name_comes_back : ∃ t,
    run (call newYork) (new newYork (ofString "log") 1000000 3 1024 1730611800) anHourApart =
        .ok t ∧
      t.disk.flatMap DiskFile.content = [97, 99, 98] ∧
      ¬ Kept t (anHourApart.flatMap Call.data) := by
  have hrun : (run (call newYork) (new newYork (ofString "log") 1000000 3 1024 1730611800)
      anHourApart).toOption.map (fun t => t.disk.flatMap DiskFile.content) =
        some [97, 99, 98] := by decide +kernel
  cases h : run (call newYork) (new newYork (ofString "log") 1000000 3 1024 1730611800)
      anHourApart with
  | error e =>
    rw [h] at hrun
    cases hrun
  | ok t =>
    rw [h] at hrun
    have hcontents : t.disk.flatMap DiskFile.content = [97, 99, 98] := Option.some.inj hrun
    refine ⟨t, rfl, hcontents, ?_⟩
    intro hkept
    have hdata := hcontents.symm.trans hkept.contents
    exact absurd hdata (by decide)

end LogFile

end Mymuduo
