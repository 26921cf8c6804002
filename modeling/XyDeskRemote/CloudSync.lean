/-
# Cloud backup of the preferences

`CloudSync.collect` gathers the entries of the synchronised preference files in a JSON
object, every value with a tag for its type; `restore` writes them back.  Both leave out
keys that look like credentials and a cache.  The JSON library is a parameter that gives
back what it has printed.

What comes back is what was there, but for two things: a string set is joined and split at
a character that its elements can contain, and empty elements are dropped; and a key is
taken for a credential when it contains one of eight parts, also within the name of a host.
-/
import Mathlib.Data.List.AList
import XyDeskRemote.KotlinText

open WorkerText List Option Function

/-- What the backup needs of the machine's single floats: the number a finite one stands for
(the two zeros stand for one), and the float of a number that was read. -/
class FloatNumber (F : Type) where
  toNumber : F → Option ℚ
  ofNumber : ℚ → F
  ofNumber_toNumber : ∀ x q, toNumber x = some q → ofNumber q = x

/-- `lowercase()`: an ASCII text at the end is lowered letter by letter. -/
structure LowerCase where
  lowercase : CodeUnits → CodeUnits
  suffix : ∀ s t, (∀ u ∈ t, u < 0x80) →
    t.map (fun u => if 0x41 ≤ u && u ≤ 0x5A then u + 0x20 else u) <:+ lowercase (s ++ t)

/-! ## JSON -/

/-- A value of the JSON library. -/
inductive Json where
  | null
  | boolean (b : Bool)
  | number (q : ℚ)
  | string (s : CodeUnits)
  | array (items : List Json)
  | object (members : List (CodeUnits × Json))

/-- A number the machine has: a long or a finite float. -/
def MachineNumber (F : Type) [FloatNumber F] (q : ℚ) : Prop :=
  (∃ n : Int, -2 ^ 63 ≤ n ∧ n < 2 ^ 63 ∧ q = n) ∨ ∃ x : F, FloatNumber.toNumber x = some q

/-- A value that can be printed and read again: machine numbers, and objects whose names are
distinct. -/
inductive Json.Printable (F : Type) [FloatNumber F] : Json → Prop
  | boolean (b : Bool) : Printable F (.boolean b)
  | number {q : ℚ} (h : MachineNumber F q) : Printable F (.number q)
  | string (s : CodeUnits) : Printable F (.string s)
  | object {members : List (CodeUnits × Json)} (hnames : (members.map Prod.fst).Nodup)
      (hmembers : ∀ m ∈ members, Printable F m.2) : Printable F (.object members)

/-- The JSON library on texts of type `Blob`: it reads what it has printed.  The rest is what
its accessors make of a value of another kind than the one asked for. -/
structure JsonLibrary (F : Type) [FloatNumber F] (Blob : Type) where
  print : List (CodeUnits × Json) → Blob
  parse : Blob → Option (List (CodeUnits × Json))
  parse_print : ∀ members, (Json.object members).Printable F → parse (print members) = some members
  coerceString : Json → CodeUnits
  coerceInt : Json → Int
  coerceNumber : Json → Option ℚ
  coerceBoolean : Json → Bool
  notANumber : F

namespace CloudSync

/-! ## Preferences -/

/-- A value of a preference file; a set is given by its elements in the order in which it is
iterated. -/
inductive PrefValue (F : Type) where
  | string (s : CodeUnits)
  | int (n : BitVec 32)
  | long (n : BitVec 64)
  | float (x : F)
  | boolean (b : Bool)
  | stringSet (elements : List CodeUnits)

/-- The same type and value; sets are the same when their elements are. -/
def PrefValue.Same {F : Type} : PrefValue F → PrefValue F → Prop
  | .stringSet elements, .stringSet elements' => ∀ s, s ∈ elements ↔ s ∈ elements'
  | v, v' => v = v'

/-- A preference file. -/
abbrev PrefFile (F : Type) : Type := AList fun _ : CodeUnits => PrefValue F

/-- The preference files of a device, by name. -/
abbrev Device (F : Type) : Type := CodeUnits → PrefFile F

/-- The files that are backed up. -/
def syncFiles : List CodeUnits :=
  [lit "xydesk.app", lit "xydesk.input", lit "xydesk.key", lit "xydesk.session",
    lit "xydesk.remote.display", lit "xydesk.lang", lit "xydesk.splash", lit "xydesk.label",
    lit "xydesk.channel", lit "xydesk.host", lit "xydesk.port", lit "xydesk.user",
    lit "xydesk.domain", lit "xydesk.rdp.options", lit "xydesk.community.jokes"]

/-- The keys that are left out. -/
def excludedKeys : List CodeUnits := [lit "feed_cache_v1"]

/-- The parts of a credential's key. -/
def sensitiveParts : List CodeUnits :=
  [lit "pass", lit "token", lit "secret", lit "pat", lit "cookie", lit "oauth", lit "auth",
    lit "credential"]

/-- `isSensitive`. -/
def isSensitive (low : LowerCase) (key : CodeUnits) : Bool :=
  sensitiveParts.any fun part => part <:+: low.lowercase key

/-- Not skipped by the loops of `collect` and `restore`. -/
def keeps (low : LowerCase) (key : CodeUnits) : Bool :=
  !(isSensitive low key || excludedKeys.contains key)

/-- The separator of the elements of a set. -/
def separator : UInt16 := 1

/-! ## Collecting -/

section Collect

variable {F : Type} [FloatNumber F]

/-- `JSONObject().put("t", ..).put("v", ..)`. -/
def withTag (tag : CodeUnits) (value : Json) : Json :=
  .object [(lit "t", .string tag), (lit "v", value)]

/-- The value with its tag; a float that is not finite makes `put` throw. -/
def tagged : PrefValue F → Option Json
  | .string s => some (withTag (lit "s") (.string s))
  | .int n => some (withTag (lit "i") (.number n.toInt))
  | .long n => some (withTag (lit "l") (.number n.toInt))
  | .float x => (FloatNumber.toNumber x).map fun q => withTag (lit "f") (.number q)
  | .boolean b => some (withTag (lit "b") (.boolean b))
  | .stringSet elements => some (withTag (lit "set") (.string ([separator].intercalate elements)))

/-- The object of a file; its keys are distinct. -/
def collectEntries (low : LowerCase) (entries : List (Sigma fun _ : CodeUnits => PrefValue F)) :
    Option (List (CodeUnits × Json)) :=
  (entries.filter fun e => keeps low e.1).mapM fun e => (tagged e.2).map fun json => (e.1, json)

/-- The objects of the files that have an entry to keep. -/
def collectFiles (low : LowerCase) (device : Device F) (names : List CodeUnits) :
    Option (List (CodeUnits × Json)) :=
  (names.mapM fun name => (collectEntries low (device name).entries).map fun obj =>
    (name, obj)).map fun files =>
      (files.filter fun file => !file.2.isEmpty).map fun file => (file.1, .object file.2)

variable {Blob : Type}

/-- `collect`: the backup of a device. -/
def collect (lib : JsonLibrary F Blob) (low : LowerCase) (device : Device F) : Option Blob :=
  (collectFiles low device syncFiles).map lib.print

end Collect

/-! ## Restoring -/

section Restore

variable {F : Type} [FloatNumber F] {Blob : Type} (lib : JsonLibrary F Blob)

/-- The member of a name. -/
def member (members : List (CodeUnits × Json)) (name : CodeUnits) : Option Json :=
  (members.find? fun m => m.1 = name).map Prod.snd

/-- `optString`. -/
def optString (members : List (CodeUnits × Json)) (name : CodeUnits) : CodeUnits :=
  match member members name with
  | none => []
  | some (.string s) => s
  | some json => lib.coerceString json

/-- `optInt` and `optLong`, before they are cut to their width. -/
def optInteger (members : List (CodeUnits × Json)) (name : CodeUnits) : Int :=
  match member members name with
  | none => 0
  | some (.number q) => if q.den = 1 then q.num else lib.coerceInt (.number q)
  | some json => lib.coerceInt json

/-- `optDouble(..).toFloat()`. -/
def optFloat (members : List (CodeUnits × Json)) (name : CodeUnits) : F :=
  match member members name with
  | none => lib.notANumber
  | some (.number q) => FloatNumber.ofNumber q
  | some json => ((lib.coerceNumber json).map FloatNumber.ofNumber).getD lib.notANumber

/-- `optBoolean`. -/
def optBoolean (members : List (CodeUnits × Json)) (name : CodeUnits) : Bool :=
  match member members name with
  | none => false
  | some (.boolean b) => b
  | some json => lib.coerceBoolean json

/-- The elements of a set that was joined; `toSet` drops the repetitions. -/
def splitElements (joined : CodeUnits) : List CodeUnits :=
  ((joined.splitOn separator).filter fun s => s ≠ []).dedup

/-- The value to write back, if the tag is known. -/
def restoredValue (members : List (CodeUnits × Json)) : Option (PrefValue F) :=
  let tag := optString lib members (lit "t")
  if tag = lit "s" then some (.string (optString lib members (lit "v")))
  else if tag = lit "i" then some (.int (BitVec.ofInt 32 (optInteger lib members (lit "v"))))
  else if tag = lit "l" then some (.long (BitVec.ofInt 64 (optInteger lib members (lit "v"))))
  else if tag = lit "f" then some (.float (optFloat lib members (lit "v")))
  else if tag = lit "b" then some (.boolean (optBoolean lib members (lit "v")))
  else if tag = lit "set" then
    some (.stringSet (splitElements (optString lib members (lit "v"))))
  else none

/-- One round of the inner loop; the number counts what was applied. -/
def restoreEntry (low : LowerCase) (state : PrefFile F × ℕ) (entry : CodeUnits × Json) :
    PrefFile F × ℕ :=
  if keeps low entry.1 then
    match entry.2 with
    | .object members =>
      match restoredValue lib members with
      | some value => (state.1.insert entry.1 value, state.2 + 1)
      | none => state
    | _ => state
  else state

/-- One round of the outer loop. -/
def restoreFile (low : LowerCase) (state : Device F × ℕ) (file : CodeUnits × Json) :
    Device F × ℕ :=
  if file.1 ∈ syncFiles then
    match file.2 with
    | .object entries =>
      let restored := entries.foldl (restoreEntry lib low) (state.1 file.1, state.2)
      (Function.update state.1 file.1 restored.1, restored.2)
    | _ => state
  else state

/-- `restore`, with the number of values applied; it throws on a text that is not an object. -/
def restore (low : LowerCase) (device : Device F) (blob : Blob) : Option (Device F × ℕ) :=
  (lib.parse blob).map fun bundle => bundle.foldl (restoreFile lib low) (device, 0)

end Restore

/-! ## One value there and back -/

section Values

variable {F : Type} [FloatNumber F] {Blob : Type} (lib : JsonLibrary F Blob)

/-- What comes back of a value. -/
def readBack : PrefValue F → PrefValue F
  | .stringSet elements => .stringSet (splitElements ([separator].intercalate elements))
  | v => v

theorem member_tag (tag value : Json) :
    member [(lit "t", tag), (lit "v", value)] (lit "t") = some tag := rfl

theorem member_value (tag value : Json) :
    member [(lit "t", tag), (lit "v", value)] (lit "v") = some value := rfl

theorem optString_tag (tag : CodeUnits) (value : Json) :
    optString lib [(lit "t", .string tag), (lit "v", value)] (lit "t") = tag := by
  rw [optString, member_tag]

theorem optString_value (tag s : CodeUnits) :
    optString lib [(lit "t", .string tag), (lit "v", .string s)] (lit "v") = s := by
  rw [optString, member_value]

theorem optInteger_value (tag : CodeUnits) (n : Int) :
    optInteger lib [(lit "t", .string tag), (lit "v", .number n)] (lit "v") = n := by
  rw [optInteger, member_value]
  exact if_pos (Rat.den_intCast n)

theorem optFloat_value (tag : CodeUnits) {x : F} {q : ℚ} (hq : FloatNumber.toNumber x = some q) :
    optFloat lib [(lit "t", .string tag), (lit "v", .number q)] (lit "v") = x := by
  rw [optFloat, member_value]
  exact FloatNumber.ofNumber_toNumber x q hq

theorem optBoolean_value (tag : CodeUnits) (b : Bool) :
    optBoolean lib [(lit "t", .string tag), (lit "v", .boolean b)] (lit "v") = b := by
  rw [optBoolean, member_value]

/-- **A tagged value is read back with its type.** -/
theorem restoredValue_tagged {v : PrefValue F} {json : Json} (h : tagged v = some json) :
    ∃ members, json = .object members ∧ restoredValue lib members = some (readBack v) := by
  cases v with
  | string s =>
    obtain rfl := some.inj h
    refine ⟨_, rfl, ?_⟩
    rw [restoredValue, optString_tag, if_pos rfl, optString_value]
    rfl
  | int n =>
    obtain rfl := some.inj h
    refine ⟨_, rfl, ?_⟩
    rw [restoredValue, optString_tag, if_neg (by decide), if_pos rfl, optInteger_value,
      BitVec.ofInt_toInt]
    rfl
  | long n =>
    obtain rfl := some.inj h
    refine ⟨_, rfl, ?_⟩
    rw [restoredValue, optString_tag, if_neg (by decide), if_neg (by decide), if_pos rfl,
      optInteger_value, BitVec.ofInt_toInt]
    rfl
  | float x =>
    obtain ⟨q, hq, rfl⟩ := map_eq_some_iff.1 h
    refine ⟨_, rfl, ?_⟩
    rw [restoredValue, optString_tag, if_neg (by decide), if_neg (by decide),
      if_neg (by decide), if_pos rfl, optFloat_value lib _ hq]
    rfl
  | boolean b =>
    obtain rfl := some.inj h
    refine ⟨_, rfl, ?_⟩
    rw [restoredValue, optString_tag, if_neg (by decide), if_neg (by decide),
      if_neg (by decide), if_neg (by decide), if_pos rfl, optBoolean_value]
    rfl
  | stringSet elements =>
    obtain rfl := some.inj h
    refine ⟨_, rfl, ?_⟩
    rw [restoredValue, optString_tag, if_neg (by decide), if_neg (by decide),
      if_neg (by decide), if_neg (by decide), if_neg (by decide), if_pos rfl, optString_value]
    rfl

/-- What collecting makes of a value can be printed. -/
theorem printable_tagged {v : PrefValue F} {json : Json} (h : tagged v = some json) :
    json.Printable F := by
  have hpair : ∀ (tag : CodeUnits) {value : Json}, value.Printable F →
      (withTag tag value).Printable F := by
    intro tag value hvalue
    refine .object ?_ ?_
    · show [lit "t", lit "v"].Nodup
      decide
    · intro m hm
      rcases mem_cons.1 hm with rfl | hm
      · exact .string tag
      · obtain rfl := mem_singleton.1 hm
        exact hvalue
  have hint : ∀ n : Int, -2 ^ 63 ≤ n → n < 2 ^ 63 → (Json.number n).Printable F :=
    fun n hlow hhigh => .number (Or.inl ⟨n, hlow, hhigh, rfl⟩)
  cases v with
  | string s =>
    obtain rfl := some.inj h
    exact hpair _ (.string s)
  | int n =>
    obtain rfl := some.inj h
    have hlow := BitVec.le_toInt n
    have hhigh := BitVec.toInt_lt (x := n)
    exact hpair _ (hint _ (by omega) (by omega))
  | long n =>
    obtain rfl := some.inj h
    exact hpair _ (hint _ (BitVec.le_toInt n) BitVec.toInt_lt)
  | float x =>
    obtain ⟨q, hq, rfl⟩ := map_eq_some_iff.1 h
    exact hpair _ (.number (Or.inr ⟨x, hq⟩))
  | boolean b =>
    obtain rfl := some.inj h
    exact hpair _ (.boolean b)
  | stringSet elements =>
    obtain rfl := some.inj h
    exact hpair _ (.string _)

/-- What splitting gives does not contain the character it splits at. -/
theorem separator_notMem_splitOn {joined s : CodeUnits} (h : s ∈ joined.splitOn separator) :
    separator ∉ s := by
  induction joined generalizing s with
  | nil =>
    rw [splitOn_nil, mem_singleton] at h
    rw [h]
    exact not_mem_nil
  | cons u joined ih =>
    rw [splitOn_cons_eq_if_modifyHead] at h
    split at h
    · rcases mem_cons.1 h with rfl | h
      · exact not_mem_nil
      · exact ih h
    · rename_i hu
      obtain ⟨first, rest, hsplit⟩ := exists_cons_of_ne_nil
        (splitOn_ne_nil separator joined)
      rw [hsplit] at h ih
      rcases mem_cons.1 h with rfl | h
      · intro hmem
        rcases mem_cons.1 hmem with heq | hmem
        · exact hu (beq_iff_eq.2 heq.symm)
        · exact ih mem_cons_self hmem
      · exact ih (mem_cons_of_mem _ h)

/-- An element that can be told from the others when they are joined. -/
def Separable (s : CodeUnits) : Prop := s ≠ [] ∧ separator ∉ s

theorem separable_of_mem_splitElements {joined s : CodeUnits} (h : s ∈ splitElements joined) :
    Separable s := by
  rw [splitElements, mem_dedup, mem_filter] at h
  exact ⟨of_decide_eq_true h.2, separator_notMem_splitOn h.1⟩

/-- **A set comes back as it was exactly when its elements are separable.** -/
theorem mem_splitElements_iff (elements : List CodeUnits) :
    (∀ s, s ∈ splitElements ([separator].intercalate elements) ↔ s ∈ elements) ↔
      ∀ s ∈ elements, Separable s := by
  constructor
  · intro h s hs
    exact separable_of_mem_splitElements ((h s).2 hs)
  · intro h s
    rw [splitElements, mem_dedup, mem_filter]
    by_cases hnil : elements = []
    · subst hnil
      show s ∈ ([] : CodeUnits).splitOn separator ∧ _ ↔ _
      rw [splitOn_nil, mem_singleton]
      constructor
      · rintro ⟨rfl, hne⟩
        exact absurd rfl (of_decide_eq_true hne)
      · exact fun hs => absurd hs not_mem_nil
    · rw [splitOn_intercalate separator (fun e he => (h e he).2) hnil]
      constructor
      · exact And.left
      · exact fun hs => ⟨hs, decide_eq_true (h s hs).1⟩

/-- A value that comes back: a finite float, a set of separable elements, or any value of
another type. -/
def Survives : PrefValue F → Prop
  | .float x => ∃ q, FloatNumber.toNumber x = some q
  | .stringSet elements => ∀ s ∈ elements, Separable s
  | _ => True

omit [FloatNumber F] in
theorem same_refl (v : PrefValue F) : v.Same v := by
  cases v with
  | stringSet elements => exact fun s => Iff.rfl
  | _ => rfl

theorem survives_iff (v : PrefValue F) :
    Survives v ↔ (∃ json, tagged v = some json) ∧ (readBack v).Same v := by
  cases v with
  | float x =>
    constructor
    · rintro ⟨q, hq⟩
      refine ⟨⟨withTag (lit "f") (.number q), ?_⟩, same_refl _⟩
      rw [tagged, hq]
      rfl
    · rintro ⟨⟨json, hjson⟩, -⟩
      obtain ⟨q, hq, -⟩ := map_eq_some_iff.1 hjson
      exact ⟨q, hq⟩
  | stringSet elements =>
    constructor
    · intro h
      exact ⟨⟨_, rfl⟩, (mem_splitElements_iff elements).2 h⟩
    · rintro ⟨-, hsame⟩
      exact (mem_splitElements_iff elements).1 hsame
  | _ => exact ⟨fun _ => ⟨⟨_, rfl⟩, same_refl _⟩, fun _ => trivial⟩

end Values

/-! ## A file there and back -/

section Files

variable {F : Type} [FloatNumber F] {Blob : Type} (lib : JsonLibrary F Blob) (low : LowerCase)

variable {entries : List (Sigma fun _ : CodeUnits => PrefValue F)} {ms : List (CodeUnits × Json)}

/-- The first entry of a file, collected. -/
theorem collectEntries_cons {key : CodeUnits} {v : PrefValue F}
    (h : collectEntries low (⟨key, v⟩ :: entries) = some ms) :
    (keeps low key = true ∧ ∃ json ms', tagged v = some json ∧
      collectEntries low entries = some ms' ∧ ms = (key, json) :: ms') ∨
    (keeps low key = false ∧ collectEntries low entries = some ms) := by
  rw [collectEntries] at h
  cases hkeep : keeps low key with
  | false =>
    rw [filter_cons_of_neg (by rw [hkeep]; exact Bool.false_ne_true)] at h
    exact Or.inr ⟨rfl, h⟩
  | true =>
    have hfilter : (⟨key, v⟩ :: entries).filter (fun e => keeps low e.1) =
        ⟨key, v⟩ :: entries.filter fun e => keeps low e.1 := filter_cons_of_pos hkeep
    rw [hfilter, mapM_cons] at h
    obtain ⟨m, hm, hrest⟩ := bind_eq_some_iff.1 h
    obtain ⟨json, hjson, rfl⟩ := map_eq_some_iff.1 hm
    obtain ⟨ms', hms', hcons⟩ := bind_eq_some_iff.1 hrest
    exact Or.inl ⟨rfl, json, ms', hjson, hms', (some.inj hcons).symm⟩

/-- The names of a collected file are keys of the file, and its values can be printed. -/
theorem collectEntries_spec (h : collectEntries low entries = some ms) :
    (ms.map Prod.fst).Sublist (entries.map Sigma.fst) ∧ ∀ m ∈ ms, m.2.Printable F := by
  induction entries generalizing ms with
  | nil =>
    obtain rfl := some.inj h
    exact ⟨List.Sublist.refl _, fun _ hm => absurd hm not_mem_nil⟩
  | cons entry entries ih =>
    obtain ⟨key, v⟩ := entry
    rcases collectEntries_cons low h with ⟨-, json, ms', hjson, hms', rfl⟩ | ⟨-, hms⟩
    · obtain ⟨hnames, hprintable⟩ := ih hms'
      refine ⟨hnames.cons_cons key, fun m hm => ?_⟩
      rcases mem_cons.1 hm with rfl | hm
      · exact printable_tagged hjson
      · exact hprintable m hm
    · obtain ⟨hnames, hprintable⟩ := ih hms
      exact ⟨hnames.cons key, hprintable⟩

/-- What a key of a restored file is. -/
def restoredEntry (entries : List (Sigma fun _ : CodeUnits => PrefValue F)) (key : CodeUnits)
    (old : Option (PrefValue F)) : Option (PrefValue F) :=
  if keeps low key then ((entries.dlookup key).map readBack).or old else old

/-- **A file there and back.**  The entries that are kept come back, read back one by one;
the others are left alone. -/
theorem lookup_restoreEntries (hnodup : entries.NodupKeys)
    (h : collectEntries low entries = some ms) (file : PrefFile F) (applied : ℕ) (key : CodeUnits) :
    (ms.foldl (restoreEntry lib low) (file, applied)).1.lookup key =
      restoredEntry low entries key (file.lookup key) := by
  induction entries generalizing ms file applied with
  | nil =>
    obtain rfl := some.inj h
    rw [restoredEntry]
    split <;> rfl
  | cons entry entries ih =>
    obtain ⟨k, v⟩ := entry
    rw [nodupKeys_cons] at hnodup
    rcases collectEntries_cons low h with ⟨hkeep, json, ms', hjson, hms', rfl⟩ | ⟨hkeep, hms⟩
    · obtain ⟨members, rfl, hrestored⟩ := restoredValue_tagged lib hjson
      have hround : restoreEntry lib low (file, applied) (k, .object members) =
          (file.insert k (readBack v), applied + 1) := by
        rw [restoreEntry, if_pos hkeep]
        simp only [hrestored]
      rw [foldl_cons, hround, ih hnodup.2 hms', restoredEntry, restoredEntry]
      by_cases hkey : key = k
      · subst hkey
        rw [if_pos hkeep, if_pos hkeep, dlookup_eq_none.2 hnodup.1, AList.lookup_insert,
          dlookup_cons_eq]
        rfl
      · rw [AList.lookup_insert_ne hkey, dlookup_cons_ne _ _ hkey]
    · rw [ih hnodup.2 hms, restoredEntry, restoredEntry]
      by_cases hkey : key = k
      · subst hkey
        rw [if_neg (by rw [hkeep]; decide), if_neg (by rw [hkeep]; decide)]
      · rw [dlookup_cons_ne _ _ hkey]

/-- Collecting a file succeeds exactly when it does on every entry that is kept. -/
theorem collectEntries_isSome_iff (entries : List (Sigma fun _ : CodeUnits => PrefValue F)) :
    (∃ ms, collectEntries low entries = some ms) ↔
      ∀ e ∈ entries, keeps low e.1 = true → ∃ json, tagged e.2 = some json := by
  induction entries with
  | nil => exact ⟨fun _ _ he => absurd he not_mem_nil, fun _ => ⟨[], rfl⟩⟩
  | cons entry entries ih =>
    obtain ⟨k, v⟩ := entry
    constructor
    · rintro ⟨ms, hms⟩ e he hkeep
      rcases collectEntries_cons low hms with ⟨-, json, ms', hjson, hms', -⟩ | ⟨hskip, hms'⟩
      · rcases mem_cons.1 he with rfl | he
        · exact ⟨json, hjson⟩
        · exact ih.1 ⟨ms', hms'⟩ e he hkeep
      · rcases mem_cons.1 he with rfl | he
        · rw [hskip] at hkeep
          cases hkeep
        · exact ih.1 ⟨ms, hms'⟩ e he hkeep
    · intro h
      obtain ⟨ms, hms⟩ := ih.2 fun e he => h e (mem_cons_of_mem _ he)
      cases hkeep : keeps low k with
      | false =>
        refine ⟨ms, ?_⟩
        have hfilter : (⟨k, v⟩ :: entries).filter (fun e => keeps low e.1) =
            entries.filter fun e => keeps low e.1 :=
          filter_cons_of_neg (by rw [hkeep]; exact Bool.false_ne_true)
        rw [collectEntries, hfilter]
        exact hms
      | true =>
        obtain ⟨json, hjson⟩ := h ⟨k, v⟩ mem_cons_self hkeep
        refine ⟨(k, json) :: ms, ?_⟩
        have hfilter : (⟨k, v⟩ :: entries).filter (fun e => keeps low e.1) =
            ⟨k, v⟩ :: entries.filter fun e => keeps low e.1 := filter_cons_of_pos hkeep
        rw [collectEntries] at hms
        rw [collectEntries, hfilter, mapM_cons, hjson, hms]
        rfl

/-! ## All files there and back -/

variable (device : Device F)

variable {names : List CodeUnits} {bundle : List (CodeUnits × Json)}

/-- The first file of a backup. -/
theorem collectFiles_cons {name : CodeUnits}
    (h : collectFiles low device (name :: names) = some bundle) :
    ∃ ms rest, collectEntries low (device name).entries = some ms ∧
      collectFiles low device names = some rest ∧
      bundle = if ms = [] then rest else (name, .object ms) :: rest := by
  obtain ⟨files, hfiles, rfl⟩ := map_eq_some_iff.1 h
  rw [mapM_cons] at hfiles
  obtain ⟨file, hfile, hrest⟩ := bind_eq_some_iff.1 hfiles
  obtain ⟨ms, hms, rfl⟩ := map_eq_some_iff.1 hfile
  obtain ⟨files', hfiles', hcons⟩ := bind_eq_some_iff.1 hrest
  obtain rfl := some.inj hcons
  refine ⟨ms, _, hms, by rw [collectFiles, hfiles']; rfl, ?_⟩
  cases ms with
  | nil => rfl
  | cons m ms => rfl

theorem collectFiles_isSome_iff (names : List CodeUnits) :
    (∃ bundle, collectFiles low device names = some bundle) ↔
      ∀ name ∈ names, ∃ ms, collectEntries low (device name).entries = some ms := by
  induction names with
  | nil => exact ⟨fun _ _ hname => absurd hname not_mem_nil, fun _ => ⟨[], rfl⟩⟩
  | cons name names ih =>
    constructor
    · rintro ⟨bundle, hbundle⟩ name' hname'
      obtain ⟨ms, rest, hms, hrest, -⟩ := collectFiles_cons low device hbundle
      rcases mem_cons.1 hname' with rfl | hname'
      · exact ⟨ms, hms⟩
      · exact ih.1 ⟨rest, hrest⟩ name' hname'
    · intro h
      obtain ⟨ms, hms⟩ := h name mem_cons_self
      obtain ⟨bundle, hbundle⟩ := ih.2 fun name' hname' => h name' (mem_cons_of_mem _ hname')
      obtain ⟨files, hfiles, -⟩ := map_eq_some_iff.1 hbundle
      rw [collectFiles, mapM_cons, hms, hfiles]
      exact ⟨_, rfl⟩

/-- The names of a backup are distinct, and it can be printed. -/
theorem collectFiles_spec (h : collectFiles low device names = some bundle) :
    (bundle.map Prod.fst).Sublist names ∧ ∀ m ∈ bundle, m.2.Printable F := by
  induction names generalizing bundle with
  | nil =>
    obtain rfl := some.inj h
    exact ⟨List.Sublist.refl _, fun _ hm => absurd hm not_mem_nil⟩
  | cons name names ih =>
    obtain ⟨ms, rest, hms, hrest, rfl⟩ := collectFiles_cons low device h
    obtain ⟨hnames, hprintable⟩ := ih hrest
    split
    · exact ⟨hnames.cons name, hprintable⟩
    · obtain ⟨hkeys, hvalues⟩ := collectEntries_spec low hms
      refine ⟨hnames.cons_cons name, fun m hm => ?_⟩
      rcases mem_cons.1 hm with rfl | hm
      · exact .object (List.Nodup.sublist hkeys (device name).nodupKeys) hvalues
      · exact hprintable m hm

/-- **The files there and back.** -/
theorem lookup_restoreFiles (hnodup : names.Nodup) (hnames : ∀ name ∈ names, name ∈ syncFiles)
    (h : collectFiles low device names = some bundle) (target : Device F) (applied : ℕ)
    (name key : CodeUnits) :
    ((bundle.foldl (restoreFile lib low) (target, applied)).1 name).lookup key =
      if name ∈ names then
        restoredEntry low (device name).entries key ((target name).lookup key)
      else (target name).lookup key := by
  induction names generalizing bundle target applied with
  | nil =>
    obtain rfl := some.inj h
    rfl
  | cons first names ih =>
    obtain ⟨hfirst, hrest⟩ := nodup_cons.1 hnodup
    have hsync := fun name hname => hnames name (mem_cons_of_mem first hname)
    obtain ⟨ms, rest, hms, hrestBundle, rfl⟩ := collectFiles_cons low device h
    have hentries := fun file applied =>
      lookup_restoreEntries lib low (device first).nodupKeys hms file applied key
    split
    · -- an empty object is not part of the backup: nothing of the file is kept
      rename_i hempty
      subst hempty
      rw [ih hrest hsync hrestBundle]
      by_cases hname : name = first
      · subst hname
        rw [if_neg hfirst, if_pos mem_cons_self]
        exact hentries (target name) applied
      · simp only [mem_cons, hname, false_or]
    · have hround : restoreFile lib low (target, applied) (first, .object ms) =
          (Function.update target first
            (ms.foldl (restoreEntry lib low) (target first, applied)).1,
            (ms.foldl (restoreEntry lib low) (target first, applied)).2) := by
        rw [restoreFile, if_pos (hnames first mem_cons_self)]
      rw [foldl_cons, hround, ih hrest hsync hrestBundle]
      by_cases hname : name = first
      · subst hname
        rw [if_neg hfirst, if_pos mem_cons_self, update_self]
        exact hentries (target name) applied
      · rw [update_of_ne hname]
        simp only [mem_cons, hname, false_or]

theorem nodup_syncFiles : syncFiles.Nodup := by decide

/-- **The backup of a device on another one.** -/
theorem restore_collect {blob : Blob} (h : collect lib low device = some blob)
    (target : Device F) :
    ∃ restored applied, restore lib low target blob = some (restored, applied) ∧
      ∀ name key, (restored name).lookup key =
        if name ∈ syncFiles then
          restoredEntry low (device name).entries key ((target name).lookup key)
        else (target name).lookup key := by
  obtain ⟨bundle, hbundle, rfl⟩ := map_eq_some_iff.1 h
  obtain ⟨hnames, hprintable⟩ := collectFiles_spec low device hbundle
  have hparse := lib.parse_print bundle (.object (nodup_syncFiles.sublist hnames) hprintable)
  refine ⟨_, _, by rw [restore, hparse]; rfl, fun name key => ?_⟩
  exact lookup_restoreFiles lib low device nodup_syncFiles (fun _ hname => hname) hbundle
    target 0 name key

/-! ## When a backup is complete -/

/-- What a backup promises, for a notion of what is a credential: restored on an empty
device it gives back every entry that is neither a credential nor excluded, and it writes no
credential. -/
def Reproduced (credential : CodeUnits → CodeUnits → Prop) : Prop :=
  ∃ blob restored applied, collect lib low device = some blob ∧
    restore lib low (fun _ => ∅) blob = some (restored, applied) ∧
    (∀ name ∈ syncFiles, ∀ key v, (device name).lookup key = some v → ¬ credential name key →
      key ∉ excludedKeys → ∃ v', (restored name).lookup key = some v' ∧ v'.Same v) ∧
    ∀ name key, credential name key → (restored name).lookup key = none

/-- Credentials are recognised by their keys, and of the other entries the keys do not look
like credentials and the values survive. -/
def Complete (credential : CodeUnits → CodeUnits → Prop) : Prop :=
  ∀ name ∈ syncFiles, ∀ key v, (device name).lookup key = some v → key ∉ excludedKeys →
    (credential name key → isSensitive low key = true) ∧
      (¬ credential name key → isSensitive low key = false ∧ Survives v)

theorem keeps_iff {key : CodeUnits} :
    keeps low key = true ↔ isSensitive low key = false ∧ key ∉ excludedKeys := by
  rw [keeps, Bool.not_eq_true', Bool.or_eq_false_iff, Bool.eq_false_iff (b := List.contains _ _),
    ne_eq, contains_iff_mem]

/-- What is not excluded and not taken for a credential is what comes back. -/
theorem lookup_restored {blob : Blob} (h : collect lib low device = some blob)
    {restored : Device F} {applied : ℕ}
    (hrestore : restore lib low (fun _ => ∅) blob = some (restored, applied))
    (name key : CodeUnits) :
    (restored name).lookup key =
      if name ∈ syncFiles ∧ keeps low key = true then
        ((device name).lookup key).map readBack
      else none := by
  obtain ⟨restored', applied', hrestore', hlookup⟩ :=
    restore_collect lib low device h (fun _ => ∅)
  obtain ⟨rfl, rfl⟩ := Prod.mk.inj (some.inj (hrestore'.symm.trans hrestore))
  rw [hlookup]
  by_cases hname : name ∈ syncFiles
  · rw [if_pos hname, restoredEntry, AList.lookup_empty, or_none]
    by_cases hkeep : keeps low key = true
    · rw [if_pos hkeep, if_pos ⟨hname, hkeep⟩]
      rfl
    · rw [if_neg hkeep, if_neg fun h => hkeep h.2]
  · rw [if_neg hname, if_neg fun h => hname h.1]
    exact AList.lookup_empty key

/-- Collecting succeeds exactly when every float that is kept is finite. -/
theorem collect_isSome_iff :
    (∃ blob, collect lib low device = some blob) ↔
      ∀ name ∈ syncFiles, ∀ key v, (device name).lookup key = some v → keeps low key = true →
        ∃ json, tagged v = some json := by
  have hfiles : (∃ blob, collect lib low device = some blob) ↔
      ∃ bundle, collectFiles low device syncFiles = some bundle := by
    constructor
    · rintro ⟨blob, hblob⟩
      obtain ⟨bundle, hbundle, -⟩ := map_eq_some_iff.1 hblob
      exact ⟨bundle, hbundle⟩
    · rintro ⟨bundle, hbundle⟩
      refine ⟨lib.print bundle, ?_⟩
      rw [collect, hbundle]
      rfl
  rw [hfiles, collectFiles_isSome_iff]
  constructor
  · intro h name hname key v hlookup hkeep
    exact (collectEntries_isSome_iff low _).1 (h name hname) ⟨key, v⟩
      (AList.mem_lookup_iff.1 hlookup) hkeep
  · intro h name hname
    refine (collectEntries_isSome_iff low _).2 fun e he hkeep => ?_
    exact h name hname e.1 e.2 (AList.mem_lookup_iff.2 he) hkeep

/-- A backup that keeps its promise is complete. -/
theorem complete_of_reproduced {credential : CodeUnits → CodeUnits → Prop}
    (h : Reproduced lib low device credential) : Complete low device credential := by
  obtain ⟨blob, restored, applied, hblob, hrestore, hentries, hcredentials⟩ := h
  have hlookup := lookup_restored lib low device hblob hrestore
  intro name hname key v hv hexcluded
  constructor
  · intro hcredential
    by_contra hsensitive
    have hkeep : keeps low key = true :=
      (keeps_iff low).2 ⟨Bool.not_eq_true _ ▸ hsensitive, hexcluded⟩
    have hnone := hcredentials name key hcredential
    rw [hlookup, if_pos ⟨hname, hkeep⟩, hv] at hnone
    cases hnone
  · intro hcredential
    obtain ⟨v', hv', hsame⟩ := hentries name hname key v hv hcredential hexcluded
    rw [hlookup] at hv'
    split at hv'
    · rename_i hkept
      rw [hv] at hv'
      obtain rfl := some.inj hv'
      refine ⟨((keeps_iff low).1 hkept.2).1, (survives_iff v).2 ⟨?_, hsame⟩⟩
      exact (collect_isSome_iff lib low device).1 ⟨blob, hblob⟩ name hname key v hv hkept.2
    · cases hv'

/-- A complete backup keeps its promise. -/
theorem reproduced_of_complete {credential : CodeUnits → CodeUnits → Prop}
    (h : Complete low device credential) : Reproduced lib low device credential := by
  -- what is kept is no credential, so that it survives
  have hkept : ∀ name ∈ syncFiles, ∀ key v, (device name).lookup key = some v →
      keeps low key = true → Survives v := by
    intro name hname key v hv hkeep
    obtain ⟨hsensitive, hexcluded⟩ := (keeps_iff low).1 hkeep
    obtain ⟨hcredential, hother⟩ := h name hname key v hv hexcluded
    refine (hother fun hcred => ?_).2
    rw [hcredential hcred] at hsensitive
    cases hsensitive
  obtain ⟨blob, hblob⟩ := (collect_isSome_iff lib low device).2
    fun name hname key v hv hkeep => ((survives_iff v).1 (hkept name hname key v hv hkeep)).1
  obtain ⟨restored, applied, hrestore, -⟩ := restore_collect lib low device hblob (fun _ => ∅)
  have hlookup := lookup_restored lib low device hblob hrestore
  refine ⟨blob, restored, applied, hblob, hrestore, ?_, ?_⟩
  · intro name hname key v hv hcredential hexcluded
    obtain ⟨hsensitive, hsurvives⟩ := (h name hname key v hv hexcluded).2 hcredential
    refine ⟨readBack v, ?_, ((survives_iff v).1 hsurvives).2⟩
    rw [hlookup, if_pos ⟨hname, (keeps_iff low).2 ⟨hsensitive, hexcluded⟩⟩, hv]
    rfl
  · intro name key hcredential
    rw [hlookup]
    split
    · rename_i hkept'
      cases hv : (device name).lookup key with
      | none => rfl
      | some v =>
        obtain ⟨hsensitive, hexcluded⟩ := (keeps_iff low).1 hkept'.2
        rw [(h name hkept'.1 key v hv hexcluded).1 hcredential] at hsensitive
        cases hsensitive
    · rfl

/-- **A backup restores what it backed up exactly when it is complete**: when credentials are
recognised by their keys, no other key is taken for one, floats are finite, and the elements
of sets can be told apart when they are joined. -/
theorem reproduced_iff {F : Type} [FloatNumber F] {Blob : Type} (lib : JsonLibrary F Blob)
    (low : LowerCase) (device : Device F) (credential : CodeUnits → CodeUnits → Prop) :
    Reproduced lib low device credential ↔ Complete low device credential :=
  ⟨complete_of_reproduced lib low device, reproduced_of_complete lib low device⟩

/-! ## What a backup cannot touch -/

theorem lookup_restoreEntry (state : PrefFile F × ℕ) (entry : CodeUnits × Json) {key : CodeUnits}
    (hkey : keeps low key = false) :
    (restoreEntry lib low state entry).1.lookup key = state.1.lookup key := by
  rw [restoreEntry]
  split
  next hkept =>
    have hne : key ≠ entry.1 := by
      rintro rfl
      rw [hkey] at hkept
      cases hkept
    split
    · split
      · exact AList.lookup_insert_ne hne
      · rfl
    · rfl
  next => rfl

/-- **Whatever is restored, the credentials stay as they were**, and so do the other files. -/
theorem lookup_restore {blob : Blob} {restored : Device F} {applied : ℕ}
    (h : restore lib low device blob = some (restored, applied)) {name key : CodeUnits}
    (hkey : name ∈ syncFiles → keeps low key = false) :
    (restored name).lookup key = (device name).lookup key := by
  obtain ⟨bundle, -, heq⟩ := map_eq_some_iff.1 h
  suffices hfold : ((bundle.foldl (restoreFile lib low) (device, 0)).1 name).lookup key =
      (device name).lookup key by
    rwa [heq] at hfold
  refine foldlRecOn bundle _ (motive := fun s : Device F × ℕ => (s.1 name).lookup key = _) rfl ?_
  rintro s hs file -
  rw [restoreFile]
  split
  · next hsync =>
    split
    · next entries _ =>
      by_cases hname : name = file.1
      · subst hname
        dsimp only
        rw [update_self]
        refine foldlRecOn entries _ (motive := fun p : PrefFile F × ℕ => p.1.lookup key = _) hs ?_
        exact fun p hp entry _ => (lookup_restoreEntry lib low p entry (hkey hsync)).trans hp
      · dsimp only
        rw [update_of_ne hname]
        exact hs
    · exact hs
  · exact hs

/-- Rational numbers in the place of floats. -/
@[reducible] def exactNumber : FloatNumber ℚ where
  toNumber := some
  ofNumber q := q
  ofNumber_toNumber _ _ h := (some.inj h).symm

/-- A library whose texts are the objects themselves. -/
def objectLibrary : @JsonLibrary ℚ exactNumber (List (CodeUnits × Json)) :=
  let _ : FloatNumber ℚ := exactNumber
  { print := fun members => members
    parse := some
    parse_print := fun _ _ => rfl
    coerceString := fun _ => []
    coerceInt := fun _ => 0
    coerceNumber := fun _ => none
    coerceBoolean := fun _ => false
    notANumber := 0 }

/-- ASCII letters only. -/
def asciiLower : LowerCase where
  lowercase s := s.map fun u => if 0x41 ≤ u && u ≤ 0x5A then u + 0x20 else u
  suffix s t _ := by
    rw [map_append]
    exact suffix_append _ _

/-- A device with one entry. -/
def oneEntry (name key : CodeUnits) (v : PrefValue ℚ) : Device ℚ :=
  Function.update (fun _ => ∅) name (AList.singleton key v)

/-- **A set with an empty element, and the colour depth of a host called patrick**, are not
restored, although no password of a gateway is among them. -/
theorem backup_incomplete :
    let _ : FloatNumber ℚ := exactNumber
    ¬ Reproduced objectLibrary asciiLower
        (oneEntry (lit "xydesk.app") (lit "tags") (.stringSet [lit "work", []]))
        (fun _ key => lit ".gpass" <:+ key) ∧
    ¬ Reproduced objectLibrary asciiLower
        (oneEntry (lit "xydesk.rdp.options") (lit "patrick:3389.bpp") (.int 24))
        (fun _ key => lit ".gpass" <:+ key) := by
  intro _
  have hlookup : ∀ name key (v : PrefValue ℚ), (oneEntry name key v name).lookup key = some v := by
    intro name key v
    rw [oneEntry, update_self]
    exact dlookup_cons_eq ..
  constructor
  · intro h
    obtain ⟨-, hsurvives⟩ := (complete_of_reproduced _ _ _ h (lit "xydesk.app") (by decide)
      (lit "tags") _ (hlookup _ _ _) (by decide)).2 (by decide)
    exact (hsurvives [] (by decide)).1 rfl
  · intro h
    obtain ⟨hsensitive, -⟩ := (complete_of_reproduced _ _ _ h (lit "xydesk.rdp.options")
      (by decide) (lit "patrick:3389.bpp") _ (hlookup _ _ _) (by decide)).2 (by decide)
    exact absurd hsensitive (by decide)

/-- A backup that brings a token. -/
def tokenBackup : List (CodeUnits × Json) :=
  [(lit "xydesk.app", .object [(lit "Token", .object [(lit "t", .string (lit "s"))])])]

theorem lookup_restore_token :
    let _ : FloatNumber ℚ := exactNumber
    ∃ r, restore objectLibrary asciiLower (fun _ => ∅) tokenBackup = some r ∧
      (r.1 (lit "xydesk.app")).lookup (lit "Token") = none := by
  intro _
  have h : restore objectLibrary asciiLower (fun _ => ∅) tokenBackup = some _ := rfl
  exact ⟨_, h, (lookup_restore _ _ _ h fun _ => by decide).trans (AList.lookup_empty _)⟩

end Files

end CloudSync
