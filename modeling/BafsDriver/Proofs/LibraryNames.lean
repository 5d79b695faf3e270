import BafsDriver.Proofs.GroupName

/-!
# The names that the library hands to the driver

`bafs_core_create_group` and `bafs_core_delete_group` take the name of a device from its path by
`sscanf` into a slot of `MAX_NAME_LEN` bytes. The conversion takes one word of any length, so it may
write past the slot, and it stops at a blank.
-/

namespace BafsDriver

open Prog

variable {m : Memory Char} {ctrl_names : Nat → CString} {i k n : Nat} {name : Name} {names : List Name}
  {str : CString}

/-! ## The claim -/

/-- The call issues no ioctl, or every string is the path of a device with a name that has a place in its
slot, and the driver finds these names. Each store is the one of its slot and keeps to it. -/
structure NamesExact (ctrl_names : Nat → CString) (n : Nat) (call : NameCall) : Prop where
  given : ∀ names, call.given = some names → names.length = n ∧ ∀ i < n, ∃ name, names[i]? = some name ∧
    (ctrl_names i).chars = dev_path name ∧ 0 < name.length ∧ name.length < MAX_NAME_LEN
  in_slots : ∀ (i p len : Nat), call.slots.stores[i]? = some (p, len) →
    i < n ∧ MAX_NAME_LEN * i ≤ p ∧ p + len ≤ MAX_NAME_LEN * (i + 1)

/-- The strings up to the first that `sscanf` refuses have short words behind the prefix, and if it
refuses none then there is no blank behind the prefix of any. -/
structure NamesFit (ctrl_names : Nat → CString) (n : Nat) : Prop where
  short : ∀ i < n, (∀ j < i, (sscanf_dev (ctrl_names j).chars).isSome) → ∀ name,
    sscanf_dev (ctrl_names i).chars = some name → name.length < MAX_NAME_LEN
  no_blank : (∀ i < n, (sscanf_dev (ctrl_names i).chars).isSome) → ∀ i < n,
    ∀ ch ∈ (ctrl_names i).chars.drop (dev_path []).length, isspace ch = false

/-! ## One string -/

theorem sscanf_dev_word (hs : sscanf_dev str.chars = some name) :
    name ≠ [] ∧ dev_path [] <+: str.chars ∧ ∀ ch ∈ name, plain ch := by
  unfold sscanf_dev at hs
  split at hs
  · rename_i hprefix
    dsimp only at hs
    split at hs
    · cases hs
    · rename_i hne
      obtain rfl := Option.some.inj hs
      refine ⟨hne, hprefix, fun ch hch => ⟨?_, ?_⟩⟩
      · have hin := (List.takeWhile_sublist _).mem hch
        exact str.no_nul ch (List.mem_of_mem_drop ((List.dropWhile_sublist _).mem hin))
      · have hspace := List.mem_takeWhile_imp hch
        simpa using hspace
  · cases hs

/-- Where no blank stands behind the prefix, the word is all that stands there. -/
theorem sscanf_dev_path_of (hs : sscanf_dev str.chars = some name)
    (hb : ∀ ch ∈ str.chars.drop (dev_path []).length, isspace ch = false) : str.chars = dev_path name := by
  obtain ⟨hne, ⟨rest, hrest⟩, -⟩ := sscanf_dev_word hs
  have hdrop : str.chars.drop (dev_path []).length = rest := by
    rw [← hrest, List.drop_left]
  rw [hdrop] at hb
  have hnul : ∀ ch ∈ rest, plain ch := fun ch hch =>
    ⟨str.no_nul ch (hrest ▸ List.mem_append_right _ hch), hb ch hch⟩
  have hpath : str.chars = dev_path rest := by
    rw [← hrest]
    rfl
  cases hr : rest with
  | nil =>
    have hnone : sscanf_dev (dev_path []) = none := by decide
    rw [hpath, hr, hnone] at hs
    cases hs
  | cons ch rest' =>
    rw [hpath, sscanf_dev_path (by rw [hr]; exact List.cons_ne_nil _ _) hnul] at hs
    rw [hpath, Option.some.inj hs]

/-! ## A slot -/

/-- The slot at `p` begins with the word, as far as it has a place, and its NUL. -/
def Stored (m : Memory Char) (p : Nat) (name : Name) : Prop :=
  ∀ a ch, a < MAX_NAME_LEN → (name ++ [NUL])[a]? = some ch → m.byte (p + a) = ch

/-- The driver finds the word in the slot, or what of it has a place there. -/
theorem Stored.slot {p : Nat} (hs : Stored m p name) (hn : ∀ ch ∈ name, plain ch) :
    slot_string m p = name.take MAX_NAME_LEN := by
  have hplain : ∀ ch ∈ name, decide (ch.toNat ≠ 0) = true := fun ch hch => decide_eq_true (hn ch hch).1
  unfold slot_string
  by_cases hlen : MAX_NAME_LEN ≤ name.length
  · have hload : m.load p MAX_NAME_LEN = name.take MAX_NAME_LEN :=
      Memory.load_eq_take (fun a ch ha hch => hs a ch ha (by
        rw [List.getElem?_append_left (ha.trans_le hlen)]
        exact hch)) hlen
    rw [hload]
    exact List.takeWhile_eq_self_iff.mpr fun ch hch => hplain ch (List.mem_of_mem_take hch)
  · have hlt : name.length < MAX_NAME_LEN := Nat.not_le.mp hlen
    obtain ⟨rest, hload⟩ := Memory.prefix_load (m := m) (p := p) (l := name ++ [NUL]) (n := MAX_NAME_LEN)
      (fun a ch hch => hs a ch (by
        have ha := (List.getElem?_eq_some_iff.mp hch).1
        rw [List.length_append, List.length_singleton] at ha
        omega) hch) (by rw [List.length_append, List.length_singleton]; exact hlt)
    rw [← hload, List.append_assoc, List.takeWhile_append_of_pos hplain, List.take_of_length_le hlt.le]
    simp [NUL]

/-! ## The loop -/

/-- The word that `sscanf` takes from a string. -/
def word (str : CString) : Name := (sscanf_dev str.chars).getD []

theorem word_eq (hs : sscanf_dev str.chars = some name) : word str = name := by
  unfold word
  rw [hs]
  rfl

/-- The memory after the words of the first `k` strings have been stored. -/
structure Scanned (ctrl_names : Nat → CString) (k : Nat) (m : Memory Char) : Prop where
  parsed : ∀ i < k, sscanf_dev (ctrl_names i).chars = some (word (ctrl_names i))
  stores : m.stores = (List.range k).map fun i => (MAX_NAME_LEN * i, (word (ctrl_names i)).length + 1)
  stored : ∀ i < k, Stored m (MAX_NAME_LEN * i) (word (ctrl_names i))

theorem Scanned.next (hm : Scanned ctrl_names k m) (hs : sscanf_dev (ctrl_names k).chars = some name) :
    Scanned ctrl_names (k + 1) (m.store (MAX_NAME_LEN * k) (name ++ [NUL])) := by
  have hword := word_eq hs
  refine ⟨fun i hi => ?_, ?_, fun i hi a ch ha hch => ?_⟩
  · rcases Nat.lt_succ_iff_lt_or_eq.mp hi with hi | rfl
    · exact hm.parsed i hi
    · rw [hword]
      exact hs
  · show m.stores ++ _ = _
    rw [List.range_succ, List.map_append, List.map_singleton, hm.stores, hword, List.length_append]
    rfl
  · rcases Nat.lt_succ_iff_lt_or_eq.mp hi with hi | rfl
    · -- the slots before are left alone
      have hbefore : MAX_NAME_LEN * i + a < MAX_NAME_LEN * k := by
        have hle := Nat.mul_le_mul_left MAX_NAME_LEN (Nat.succ_le_of_lt hi)
        rw [Nat.mul_succ] at hle
        omega
      rw [Memory.byte_store_before hbefore]
      exact hm.stored i hi a ch ha hch
    · rw [hword] at hch
      exact Memory.byte_store hch

/-- The loop stores the words of all strings, or those up to the first that `sscanf` refuses. -/
theorem scan_slots_spec (ctrl_names : Nat → CString) (m₀ : Memory Char) (hm : m₀.stores = []) (n : Nat) :
    ((scan_slots m₀ ctrl_names n).2 = true → Scanned ctrl_names n (scan_slots m₀ ctrl_names n).1) ∧
    ((scan_slots m₀ ctrl_names n).2 = false → ∃ k < n, sscanf_dev (ctrl_names k).chars = none ∧
      Scanned ctrl_names k (scan_slots m₀ ctrl_names n).1) := by
  induction n with
  | zero =>
    refine ⟨fun _ => ⟨fun i hi => absurd hi (Nat.not_lt_zero i), hm, fun i hi => absurd hi (Nat.not_lt_zero i)⟩,
      fun hf => ?_⟩
    cases hf
  | succ n ih =>
    obtain ⟨htrue, hfalse⟩ := ih
    unfold scan_slots sscanf_store
    generalize scan_slots m₀ ctrl_names n = r at htrue hfalse
    obtain ⟨m, ok⟩ := r
    cases ok with
    | false =>
      refine ⟨nofun, fun _ => ?_⟩
      obtain ⟨k, hk, hnone, hs⟩ := hfalse rfl
      exact ⟨k, Nat.lt_succ_of_lt hk, hnone, hs⟩
    | true =>
      have hs := htrue rfl
      cases hword : sscanf_dev (ctrl_names n).chars with
      | none => exact ⟨nofun, fun _ => ⟨n, Nat.lt_succ_self n, hword, hs⟩⟩
      | some name => exact ⟨fun _ => hs.next hword, nofun⟩

/-! ## The calls -/

/-- What the library does with its names, from the state of the slots after the loop. -/
inductive Called (ctrl_names : Nat → CString) (n : Nat) : NameCall → Prop
  | given {m : Memory Char} (hm : Scanned ctrl_names n m) : Called ctrl_names n
    ⟨m, some ((List.range n).map fun i => slot_string m (MAX_NAME_LEN * i))⟩
  | refused {m : Memory Char} {k : Nat} (hk : k < n) (hnone : sscanf_dev (ctrl_names k).chars = none)
    (hm : Scanned ctrl_names k m) : Called ctrl_names n ⟨m, none⟩

theorem create_called (n : Nat) (ctrl_names : Nat → CString) :
    Called ctrl_names n (create_call n ctrl_names) := by
  obtain ⟨htrue, hfalse⟩ := scan_slots_spec ctrl_names ⟨fun _ => NUL, []⟩ rfl n
  unfold create_call
  generalize scan_slots ⟨fun _ => NUL, []⟩ ctrl_names n = r at htrue hfalse
  obtain ⟨m, ok⟩ := r
  cases ok with
  | false =>
    obtain ⟨k, hk, hnone, hs⟩ := hfalse rfl
    exact .refused hk hnone hs
  | true => exact .given (htrue rfl)

theorem delete_called (stack : Nat → Char) (group_name : CString) :
    Called (fun _ => group_name) 1 (delete_call stack group_name) := by
  have hnil : Scanned (fun _ => group_name) 0 ⟨stack, []⟩ :=
    ⟨fun i hi => absurd hi (Nat.not_lt_zero i), rfl, fun i hi => absurd hi (Nat.not_lt_zero i)⟩
  unfold delete_call sscanf_store
  cases hword : sscanf_dev group_name.chars with
  | none => exact .refused Nat.one_pos hword hnil
  | some name => exact .given (hnil.next hword)

/-- The record of the stores tells where each word has been put. -/
theorem Scanned.store_at {p len : Nat} (hm : Scanned ctrl_names k m) (hi : m.stores[i]? = some (p, len)) :
    i < k ∧ p = MAX_NAME_LEN * i ∧ len = (word (ctrl_names i)).length + 1 := by
  rw [hm.stores, List.getElem?_map] at hi
  obtain ⟨j, hj, hpair⟩ := Option.map_eq_some_iff.mp hi
  obtain ⟨hlt, hget⟩ := List.getElem?_eq_some_iff.mp hj
  rw [List.getElem_range] at hget
  rw [List.length_range] at hlt
  subst hget
  obtain ⟨hp, hlen⟩ := Prod.mk.inj hpair
  exact ⟨hlt, hp.symm, hlen.symm⟩

theorem Scanned.store_of (hm : Scanned ctrl_names k m) (hi : i < k) : m.stores[i]? =
    some (MAX_NAME_LEN * i, (word (ctrl_names i)).length + 1) := by
  rw [hm.stores, List.getElem?_map, List.getElem?_range hi]
  rfl

theorem Scanned.isSome (hm : Scanned ctrl_names k m) (hi : i < k) :
    (sscanf_dev (ctrl_names i).chars).isSome := by
  rw [hm.parsed i hi]
  rfl

/-- The stores keep to their slots where the words are short. -/
theorem Scanned.in_slots {p len : Nat} (hm : Scanned ctrl_names k m) (hkn : k ≤ n)
    (hf : NamesFit ctrl_names n) (hi : m.stores[i]? = some (p, len)) :
    i < n ∧ MAX_NAME_LEN * i ≤ p ∧ p + len ≤ MAX_NAME_LEN * (i + 1) := by
  obtain ⟨hlt, rfl, rfl⟩ := hm.store_at hi
  have hshort := hf.short i (hlt.trans_le hkn) (fun j hj => hm.isSome (hj.trans hlt)) _ (hm.parsed i hlt)
  refine ⟨hlt.trans_le hkn, le_rfl, ?_⟩
  rw [Nat.mul_succ]
  omega

/-- The store of a word is the one of its string. -/
theorem Called.store_of {call : NameCall} (hc : Called ctrl_names n call) (hi : i < n)
    (hall : ∀ j < i, (sscanf_dev (ctrl_names j).chars).isSome) (hs : sscanf_dev (ctrl_names i).chars = some name) :
    call.slots.stores[i]? = some (MAX_NAME_LEN * i, name.length + 1) := by
  cases hc with
  | given hm =>
    rw [hm.store_of hi, word_eq hs]
  | @refused m k hk hnone hm =>
    have hik : i < k := by
      rcases Nat.lt_trichotomy i k with hlt | rfl | hlt
      · exact hlt
      · cases hnone.symm.trans hs
      · have hsome := hall k hlt
        rw [hnone] at hsome
        cases hsome
    rw [hm.store_of hik, word_eq hs]

theorem Called.exact_iff {call : NameCall} (hc : Called ctrl_names n call) :
    NamesExact ctrl_names n call ↔ NamesFit ctrl_names n := by
  constructor
  · intro he
    refine ⟨fun i hi hall name hname => ?_, fun hall i hi => ?_⟩
    · obtain ⟨-, -, hle⟩ := he.in_slots i _ _ (hc.store_of hi hall hname)
      rw [Nat.mul_succ] at hle
      omega
    · cases hc with
      | refused hk hnone hm =>
        have hsome := hall _ hk
        rw [hnone] at hsome
        cases hsome
      | @given m hm =>
        obtain ⟨name, hget, hpath, -, hlt⟩ := (he.given _ rfl).2 i hi
        rw [List.getElem?_map, List.getElem?_range hi] at hget
        have hslot : slot_string m (MAX_NAME_LEN * i) = name := Option.some.inj hget
        obtain ⟨-, -, hplain⟩ := sscanf_dev_word (hm.parsed i hi)
        rw [(hm.stored i hi).slot hplain] at hslot
        -- a name that leaves room in its slot is the whole word
        have hword : word (ctrl_names i) = name := by
          rw [← hslot, List.length_take] at hlt
          rw [← hslot, List.take_of_length_le (by omega)]
        rw [hpath, ← hword]
        exact fun ch hch => (hplain ch hch).2
  · intro hf
    cases hc with
    | refused hk hnone hm => exact ⟨nofun, fun i p len hi => hm.in_slots hk.le hf hi⟩
    | @given m hm =>
      refine ⟨fun names hnames => ?_, fun i p len hi => hm.in_slots le_rfl hf hi⟩
      obtain rfl := Option.some.inj hnames
      refine ⟨by rw [List.length_map, List.length_range], fun i hi => ⟨word (ctrl_names i), ?_, ?_, ?_, ?_⟩⟩
      all_goals have hparsed := hm.parsed i hi
      all_goals have hshort := hf.short i hi (fun j hj => hm.isSome (hj.trans hi)) _ hparsed
      all_goals obtain ⟨hne, -, hplain⟩ := sscanf_dev_word hparsed
      · rw [List.getElem?_map, List.getElem?_range hi]
        refine congrArg some (((hm.stored i hi).slot hplain).trans ?_)
        exact List.take_of_length_le hshort.le
      · exact sscanf_dev_path_of hparsed (hf.no_blank (fun j hj => hm.isSome hj) i hi)
      · exact List.length_pos_iff.mpr hne
      · exact hshort

/-! ## The requests

The requests of the calls are stated with whole words. The driver copies at most `MAX_NAME_LEN` bytes of
each name, so it makes the same of what the slots hold. -/

theorem scan_names_some (hall : ∀ i < n, sscanf_dev (ctrl_names i).chars = some (word (ctrl_names i))) :
    scan_names (fun i => (ctrl_names i).chars) n = some ((List.range n).map fun i => word (ctrl_names i)) := by
  unfold scan_names
  induction n with
  | zero => rfl
  | succ n ih =>
    rw [List.range_succ, List.mapM_append, List.map_append, ih fun i hi => hall i (Nat.lt_succ_of_lt hi)]
    simp [hall n (Nat.lt_succ_self n)]

theorem scan_names_none (hall : ∀ i < k, sscanf_dev (ctrl_names i).chars = some (word (ctrl_names i)))
    (hnone : sscanf_dev (ctrl_names k).chars = none) (hk : k < n) :
    scan_names (fun i => (ctrl_names i).chars) n = none := by
  induction n with
  | zero => exact absurd hk (Nat.not_lt_zero k)
  | succ n ih =>
    have hsplit : scan_names (fun i => (ctrl_names i).chars) (n + 1) =
        (scan_names (fun i => (ctrl_names i).chars) n).bind fun names =>
          (sscanf_dev (ctrl_names n).chars).map fun name => names ++ [name] := by
      unfold scan_names
      rw [List.range_succ, List.mapM_append, List.mapM_cons, List.mapM_nil]
      generalize List.mapM (fun i => sscanf_dev (ctrl_names i).chars) (List.range n) = names
      generalize sscanf_dev (ctrl_names n).chars = name
      cases names <;> cases name <;> rfl
    rw [hsplit]
    rcases Nat.lt_succ_iff_lt_or_eq.mp hk with hk | rfl
    · rw [ih hk]
      rfl
    · rw [scan_names_some hall, hnone]
      rfl

/-- The driver copies the same from a slot as from the whole word. -/
theorem Scanned.copied (hm : Scanned ctrl_names n m) (hi : i < n) :
    strncpy_from_user (some (slot_string m (MAX_NAME_LEN * i))) MAX_NAME_LEN =
      strncpy_from_user (some (word (ctrl_names i))) MAX_NAME_LEN := by
  obtain ⟨-, -, hplain⟩ := sscanf_dev_word (hm.parsed i hi)
  rw [(hm.stored i hi).slot hplain]
  unfold strncpy_from_user
  by_cases hlen : (word (ctrl_names i)).length < MAX_NAME_LEN
  · rw [List.take_of_length_le hlen.le]
  · have htake : ((word (ctrl_names i)).take MAX_NAME_LEN).length = MAX_NAME_LEN :=
      List.length_take_of_le (Nat.not_lt.mp hlen)
    simp [htake, hlen, List.take_take]

/-- The loop of the driver over names that it copies alike. -/
theorem copy_names_congr {src src' : Nat → Option Name} (halike : ∀ i < n,
    strncpy_from_user (src i) MAX_NAME_LEN = strncpy_from_user (src' i) MAX_NAME_LEN) :
    copy_names src n = copy_names src' n := by
  unfold copy_names
  refine iterate_congr (fun i hi names => ?_) []
  rw [halike i (List.mem_range.mp hi)]

/-- The ioctl is issued exactly if `sscanf` takes all strings, and does what it would do with the words. -/
theorem create_call_request (n_ctrls : BitVec 32) (ctrl_names : Nat → CString) (group_name : Nat)
    (env : CreateGroupEnv) :
    match (create_call n_ctrls.toNat ctrl_names).given,
      scan_names (fun i => (ctrl_names i).chars) n_ctrls.toNat with
    | some given, some names =>
      bafs_core_create_group { n_ctrls, ctrls := fun i => given[i]?, group_name } env =
        bafs_core_create_group { n_ctrls, ctrls := fun i => names[i]?, group_name } env
    | none, none => True
    | _, _ => False := by
  have hc := create_called n_ctrls.toNat ctrl_names
  generalize create_call n_ctrls.toNat ctrl_names = call at hc
  cases hc with
  | refused hk hnone hm =>
    rw [scan_names_none hm.parsed hnone hk]
    trivial
  | given hm =>
    rw [scan_names_some hm.parsed]
    unfold bafs_core_create_group
    dsimp only
    rw [copy_names_congr fun i hi => ?_]
    rw [List.getElem?_map, List.getElem?_map, List.getElem?_range hi]
    exact hm.copied hi

/-- As `create_call_request`, of the one name to delete. -/
theorem delete_call_request (stack : Nat → Char) (group_name : CString) (copy_from_user : Bool) :
    match (delete_call stack group_name).given, sscanf_dev group_name.chars with
    | some given, some name =>
      bafs_core_delete_group { group_name := given[0]? } copy_from_user =
        bafs_core_delete_group { group_name := some name } copy_from_user
    | none, none => True
    | _, _ => False := by
  have hc := delete_called stack group_name
  generalize delete_call stack group_name = call at hc
  cases hc with
  | @refused m k hk hnone hm =>
    obtain rfl := Nat.lt_one_iff.mp hk
    rw [hnone]
    trivial
  | given hm =>
    rw [hm.parsed 0 Nat.one_pos]
    unfold bafs_core_delete_group
    dsimp only
    rw [← hm.copied Nat.one_pos]
    rfl

/-- The path of a device whose name has one character more than has a place in a slot with its NUL. -/
def long_path : CString := ⟨dev_path (List.replicate MAX_NAME_LEN 'x'), by simp [dev_path, MAX_NAME_LEN]⟩

end BafsDriver
