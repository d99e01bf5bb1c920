import HazardFlow.Schedule.Launch
import Mathlib.Algebra.Group.Nat.Defs

/-!
# What it takes to launch a system

Settings are checked before anything is made, and refused with the first reason found. Accepted ones
name a power of two of shards and a grain that is not zero. But the text that the names of threads
start with is not looked at: with a null byte in it the first worker cannot be named, and the launch
stops with a fault. Nor is the number of workers compared with what a list can hold, and with too
many the launch stops before any thread is started. Nothing else stops it, as long as there is
memory for the shards.
-/

namespace HazardFlow

/-- The bytes of a name. -/
def nameBytes (name : String) : List UInt8 := name.toUTF8.toList

theorem toList_loop (bytes : ByteArray) (i : Nat) (done : List UInt8) :
    ByteArray.toList.loop bytes i done = done.reverse ++ bytes.data.toList.drop i := by
  fun_induction ByteArray.toList.loop bytes i done with
  | case1 i done hlt ih =>
    have hdrop := List.drop_eq_getElem_cons (show i < bytes.data.toList.length from hlt)
    have hget : bytes.get! i = bytes.data.toList[i] := getElem!_pos bytes.data i hlt
    rw [ih, hdrop, hget, List.reverse_cons, List.append_assoc]
    rfl
  | case2 i done hge => rw [List.drop_eq_nil_of_le (Nat.le_of_not_lt hge), List.append_nil]

/-- Characters are encoded one by one. -/
theorem nameBytes_eq_flatMap (name : String) :
    nameBytes name = name.toList.flatMap String.utf8EncodeChar := by
  have hbytes : name.toByteArray = name.toList.utf8Encode := by
    rw [← String.toByteArray_ofList, String.ofList_toList]
  unfold nameBytes String.toUTF8 ByteArray.toList
  rw [toList_loop, hbytes]
  simp [List.utf8Encode]

theorem nameBytes_append (name other : String) :
    nameBytes (name ++ other) = nameBytes name ++ nameBytes other := by
  rw [nameBytes_eq_flatMap, nameBytes_eq_flatMap, nameBytes_eq_flatMap, String.toList_append,
    List.flatMap_append]

/-- No character but the null character has a null byte. -/
theorem zero_mem_utf8EncodeChar_iff {c : Char} : 0 ∈ String.utf8EncodeChar c ↔ c = '\x00' := by
  have hchar : c = '\x00' ↔ c.val.toNat = 0 := by
    rw [Char.ext_iff, ← UInt32.toNat_inj]
    rfl
  have hbyte (v : Nat) : 0 = UInt8.ofNat v ↔ v % 256 = 0 := by
    rw [← UInt8.toNat_inj, UInt8.toNat_ofNat', eq_comm]
    rfl
  rw [hchar]
  unfold String.utf8EncodeChar
  generalize c.val.toNat = v
  -- The bytes of longer encodings have their high bits set.
  dsimp only
  split
  · simp only [List.mem_singleton, hbyte]
    omega
  split
  · simp only [List.mem_cons, List.not_mem_nil, or_false, hbyte]
    omega
  split
  all_goals
    simp only [List.mem_cons, List.not_mem_nil, or_false, hbyte]
    omega

theorem zero_mem_nameBytes_iff {name : String} : 0 ∈ nameBytes name ↔ '\x00' ∈ name.toList := by
  rw [nameBytes_eq_flatMap, List.mem_flatMap]
  constructor
  · rintro ⟨c, hc, hbyte⟩
    exact zero_mem_utf8EncodeChar_iff.mp hbyte ▸ hc
  · exact fun hc => ⟨_, hc, zero_mem_utf8EncodeChar_iff.mpr rfl⟩

/-- A name is refused for its first null byte. -/
theorem checkThreadName_eq (name : String) : checkThreadName name =
    if '\x00' ∈ name.toList then
      .error (.threadName ((nameBytes name).idxOf 0) ((nameBytes name).map UInt8.toNat))
    else .ok () := by
  have hfind : ((nameBytes name).map UInt8.toNat).findIdx? (· == 0) =
      (nameBytes name).findIdx? (· == 0) := by
    rw [List.findIdx?_map]
    congr 1
    funext byte
    rw [Bool.eq_iff_iff, Function.comp_apply, beq_iff_eq, beq_iff_eq, ← UInt8.toNat_inj]
    rfl
  have hbytes : name.toUTF8.toList = nameBytes name := rfl
  unfold checkThreadName
  dsimp only
  rw [hbytes, hfind]
  split
  · next position hposition =>
    obtain ⟨hlt, hnull, -⟩ := List.findIdx?_eq_some_iff_getElem.mp hposition
    have hmem : 0 ∈ nameBytes name := beq_iff_eq.mp hnull ▸ List.getElem_mem hlt
    have hindex : (nameBytes name).findIdx? (· == 0) = some ((nameBytes name).idxOf 0) :=
      List.findIdx?_eq_some_of_exists ⟨0, hmem, rfl⟩
    obtain rfl := Option.some.inj (hposition.symm.trans hindex)
    rw [if_pos (zero_mem_nameBytes_iff.mp hmem)]
  · next hnone =>
    refine (if_neg fun hnull => ?_).symm
    have hbyte := List.findIdx?_eq_none_iff.mp hnone 0 (zero_mem_nameBytes_iff.mpr hnull)
    exact absurd hbyte (by decide)

/-- Starts threads in turn, and notes which were started. One whose name is refused stops it. -/
def startThreads : List String → List String × Except Fault Unit
  | [] => ([], .ok ())
  | name :: names =>
    match checkThreadName name with
    | .error fault => ([], .error fault)
    | .ok () =>
      let (started, result) := startThreads names
      (name :: started, result)

theorem snd_startThreads {α : Type} (name : α → String) (indices : List α) :
    (startThreads (indices.map name)).2 =
      indices.forM fun index => checkThreadName (name index) := by
  induction indices with
  | nil => rfl
  | cons index indices ih =>
    rw [List.map_cons]
    unfold startThreads List.forM
    rw [← ih]
    cases checkThreadName (name index) <;> rfl

/-- All threads are started when no name has a null character. -/
theorem startThreads_of_forall {names : List String}
    (h : ∀ name ∈ names, '\x00' ∉ name.toList) : startThreads names = (names, .ok ()) := by
  induction names with
  | nil => rfl
  | cons name names ih =>
    obtain ⟨hname, hnames⟩ := List.forall_mem_cons.mp h
    unfold startThreads
    rw [checkThreadName_eq, if_neg hname, ih hnames]

/-- None is when the first name has one. -/
theorem startThreads_of_head {name : String} {names : List String} (h : '\x00' ∈ name.toList) :
    startThreads (name :: names) =
      ([], .error (.threadName ((nameBytes name).idxOf 0) ((nameBytes name).map UInt8.toNat))) := by
  unfold startThreads
  rw [checkThreadName_eq, if_pos h]

/-- A power of two of shards needs memory only. -/
theorem Tracker.create_two_pow {count : Nat} (h : ∃ k, count = 2 ^ k) : Tracker.create count =
    if maxBlock < count * shardBytes then .error .capacityOverflow
    else .ok { shards := Array.replicate count {} } := by
  obtain ⟨k, rfl⟩ := h
  have hpower : isPowerOfTwo (2 ^ k) = true := Nat.one_shiftLeft k ▸ isPowerOfTwo_one_shiftLeft k
  unfold Tracker.create
  rw [if_neg (Bool.ne_false_iff.mpr hpower)]

/-- The counters take the most, so the other lists of the workers fit when they do. -/
theorem checkWorkerRoom_eq (workers : Nat) : checkWorkerRoom workers =
    if maxBlock < workers * counterBytes then .error .capacityOverflow else .ok () := by
  have hmost (bytes : Nat) (hbytes : bytes ≤ counterBytes) (hlt : maxBlock < workers * bytes) :
      maxBlock < workers * counterBytes :=
    Nat.lt_of_lt_of_le hlt (Nat.mul_le_mul_left workers hbytes)
  simp only [checkWorkerRoom, workerBytes, List.forM_eq_forM, List.forM_cons, List.forM_nil]
  split
  · next hqueues => rw [if_pos (hmost 32 (by decide) hqueues)]; rfl
  split
  · next hstealers => rw [if_pos (hmost 16 (by decide) hstealers)]; rfl
  split
  · rfl
  split
  · next hcounters hhandles => exact absurd (hmost 24 (by decide) hhandles) hcounters
  · rfl

namespace Settings

/-- Launches a system as it is launched, and notes which threads were started. -/
def launchNoting (s : Settings) (workers : Nat) : List String × Except StartError Tracker :=
  match ({ s with workers := some workers } : Settings).validate with
  | .error cause => ([], .error (.settings cause))
  | .ok () =>
    match Tracker.create s.shards with
    | .error fault => ([], .error (.fault fault))
    | .ok tracker =>
      match checkWorkerRoom workers with
      | .error fault => ([], .error (.fault fault))
      | .ok () =>
        let (started, result) := startThreads ((List.range workers).map s.workerName)
        (started, (result.map fun _ => tracker).mapError .fault)

theorem snd_launchNoting (s : Settings) (workers : Nat) :
    (s.launchNoting workers).2 = s.launch workers := by
  unfold launchNoting launch
  cases ({ s with workers := some workers } : Settings).validate with
  | error cause => rfl
  | ok _ =>
    dsimp only
    unfold start
    cases Tracker.create s.shards with
    | error fault => rfl
    | ok tracker =>
      rw [← snd_startThreads]
      cases checkWorkerRoom workers <;> rfl

variable {s : Settings} {workers i : Nat}

/-- What is found when settings are checked for a number of workers. -/
def validated (s : Settings) (workers : Nat) : Except SettingsError Unit :=
  ({ s with workers := some workers } : Settings).validate

/-- Settings are accepted when nothing that is looked at is wrong. -/
theorem validated_eq_ok_iff :
    s.validated workers = .ok () ↔ workers ≠ 0 ∧ (∃ k, s.shards = 2 ^ k) ∧ s.grain ≠ 0 := by
  have hpower : (∃ k, s.shards = 2 ^ k) ↔ isPowerOfTwo s.shards = true := by
    rw [isPowerOfTwo_iff]
    simp only [Nat.one_shiftLeft]
  rw [hpower]
  unfold validated validate
  dsimp only
  split
  · next hworkers => exact iff_of_false nofun fun hall => hall.1 (Option.some.inj hworkers)
  next hworkers =>
  split
  · next hshards => exact iff_of_false nofun fun hall => nomatch hshards.symm.trans hall.2.1
  next hshards =>
  split
  · next hgrain => exact iff_of_false nofun fun hall => hall.2.2 hgrain
  · next hgrain =>
    exact iff_of_true rfl
      ⟨fun hzero => hworkers (congrArg some hzero), Bool.not_eq_false _ ▸ hshards, hgrain⟩

/-- What follows the text that names start with has no null character. -/
theorem null_mem_workerName_iff :
    '\x00' ∈ (s.workerName i).toList ↔ '\x00' ∈ s.threadName.toList := by
  have hdigits : '\x00' ∉ (toString i).toList := by
    change '\x00' ∉ (String.ofList (Nat.toDigits 10 i)).toList
    rw [String.toList_ofList]
    intro hmem
    have hdigit := Nat.isDigit_of_mem_toDigits (by decide) (by decide) hmem
    exact absurd hdigit (by decide)
  have hdash : '\x00' ∉ (toString "-").toList := by decide
  change '\x00' ∈ (s.threadName ++ (toString "-" ++ toString i)).toList ↔ _
  rw [String.toList_append, String.toList_append, List.mem_append, List.mem_append,
    or_iff_left (not_or.mpr ⟨hdash, hdigits⟩)]

/-- What comes of a launch, by the first thing that is wrong. -/
structure LaunchesExactly (s : Settings) (workers : Nat) : Prop where
  answer : (s.launchNoting workers).2 = s.launch workers
  accepted_iff :
    s.validated workers = .ok () ↔ workers ≠ 0 ∧ (∃ k, s.shards = 2 ^ k) ∧ s.grain ≠ 0
  /-- Settings are refused before any thread is started. -/
  refused : ∀ cause, s.validated workers = .error cause →
    s.launchNoting workers = ([], .error (.settings cause))
  /-- There is no memory for the shards. -/
  crowded : s.validated workers = .ok () → maxBlock < s.shards * shardBytes →
    s.launchNoting workers = ([], .error (.fault .capacityOverflow))
  /-- There are more workers than a list can have counters. -/
  overstaffed : s.validated workers = .ok () → s.shards * shardBytes ≤ maxBlock →
    maxBlock < workers * counterBytes →
      s.launchNoting workers = ([], .error (.fault .capacityOverflow))
  /-- No thread is started when the first one cannot be named. -/
  unnamed : s.validated workers = .ok () → s.shards * shardBytes ≤ maxBlock →
    workers * counterBytes ≤ maxBlock → '\x00' ∈ s.threadName.toList →
      s.launchNoting workers = ([], .error (.fault (.threadName ((nameBytes s.threadName).idxOf 0)
        ((nameBytes (s.workerName 0)).map UInt8.toNat))))
  launched : s.validated workers = .ok () → s.shards * shardBytes ≤ maxBlock →
    workers * counterBytes ≤ maxBlock → '\x00' ∉ s.threadName.toList →
      ∃ tracker, Tracker.create s.shards = .ok tracker ∧
        s.launchNoting workers = ((List.range workers).map s.workerName, .ok tracker)

theorem launchesExactly (s : Settings) (workers : Nat) : s.LaunchesExactly workers := by
  have hcheck : s.launchNoting workers = match s.validated workers with
      | .error cause => ([], .error (.settings cause))
      | .ok () => match Tracker.create s.shards with
        | .error fault => ([], .error (.fault fault))
        | .ok tracker => match checkWorkerRoom workers with
          | .error fault => ([], .error (.fault fault))
          | .ok () =>
            ((startThreads ((List.range workers).map s.workerName)).1,
              ((startThreads ((List.range workers).map s.workerName)).2.map
                fun _ => tracker).mapError .fault) := rfl
  have hpower (haccepted : s.validated workers = .ok ()) : ∃ k, s.shards = 2 ^ k :=
    (validated_eq_ok_iff.mp haccepted).2.1
  have hcreate (haccepted : s.validated workers = .ok ())
      (hroom : s.shards * shardBytes ≤ maxBlock) :
      Tracker.create s.shards = .ok { shards := Array.replicate s.shards {} } := by
    rw [Tracker.create_two_pow (hpower haccepted), if_neg (Nat.not_lt.mpr hroom)]
  have hstaff (hfits : workers * counterBytes ≤ maxBlock) : checkWorkerRoom workers = .ok () := by
    rw [checkWorkerRoom_eq, if_neg (Nat.not_lt.mpr hfits)]
  refine ⟨snd_launchNoting s workers, validated_eq_ok_iff, fun cause hcause => ?_,
    fun haccepted hcrowded => ?_, fun haccepted hroom hoverstaffed => ?_,
    fun haccepted hroom hfits hnull => ?_,
    fun haccepted hroom hfits hnull => ⟨_, hcreate haccepted hroom, ?_⟩⟩
  · rw [hcheck, hcause]
  · rw [hcheck, haccepted, Tracker.create_two_pow (hpower haccepted), if_pos hcrowded]
  · rw [hcheck, haccepted, hcreate haccepted hroom, checkWorkerRoom_eq, if_pos hoverstaffed]
  · obtain ⟨rest, rfl⟩ := Nat.exists_eq_succ_of_ne_zero (validated_eq_ok_iff.mp haccepted).1
    have hprefix : (nameBytes (s.workerName 0)).idxOf 0 = (nameBytes s.threadName).idxOf 0 := by
      unfold workerName
      rw [nameBytes_append, List.idxOf_append, if_pos (zero_mem_nameBytes_iff.mpr hnull)]
    rw [hcheck, haccepted, hcreate haccepted hroom, hstaff hfits, List.range_succ_eq_map,
      List.map_cons, startThreads_of_head (null_mem_workerName_iff.mpr hnull), hprefix]
    rfl
  · rw [hcheck, haccepted, hcreate haccepted hroom, hstaff hfits, startThreads_of_forall]
    · rfl
    · refine List.forall_mem_map.mpr fun i _ => ?_
      rwa [null_mem_workerName_iff]

/-- A system that was launched has the tracker that its settings ask for. -/
theorem LaunchesExactly.of_launch (h : s.LaunchesExactly workers) {tracker : Tracker}
    (hlaunch : s.launch workers = .ok tracker) :
    s.validated workers = .ok () ∧ Tracker.create s.shards = .ok tracker := by
  rw [← h.answer] at hlaunch
  cases hcheck : s.validated workers with
  | error cause =>
    rw [h.refused cause hcheck] at hlaunch
    cases hlaunch
  | ok _ =>
    rcases Nat.lt_or_ge maxBlock (s.shards * shardBytes) with hcrowded | hroom
    · rw [h.crowded hcheck hcrowded] at hlaunch
      cases hlaunch
    rcases Nat.lt_or_ge maxBlock (workers * counterBytes) with hoverstaffed | hfits
    · rw [h.overstaffed hcheck hroom hoverstaffed] at hlaunch
      cases hlaunch
    by_cases hnull : '\x00' ∈ s.threadName.toList
    · rw [h.unnamed hcheck hroom hfits hnull] at hlaunch
      cases hlaunch
    · obtain ⟨made, hmade, hnoting⟩ := h.launched hcheck hroom hfits hnull
      rw [hnoting] at hlaunch
      cases hlaunch
      exact ⟨rfl, hmade⟩

end Settings

end HazardFlow
