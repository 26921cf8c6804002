/-
# Layouts of buttons as JSON

A button is an object; its macro and its two flags are written only when there is something to
say, and every member that is missing is read as its default.  `encode` writes an array, for
the preferences, and `exportLayoutJson` an object with such an array, for a file; the import
of it is made well formed.
-/
import XyDeskRemote.HudLayout

open WorkerText ComparedFloat CloudSync List

/-! ## The JSON library -/

/-- The library: texts of values, and what its accessors make of a value of another kind than
the one asked for. -/
structure HudJson (F : Type) where
  print : Json → CodeUnits
  parse : CodeUnits → Option Json
  coerceString : Json → CodeUnits
  coerceInt : Json → Option (BitVec 32)
  coerceFloat : Json → Option F
  coerceBoolean : Json → Option Bool

namespace HudJson

variable {F : Type} [ComparedFloat F] (lib : HudJson F)

/-- The library is as documented about a value: it reads what it has printed, and objects and
arrays stand in their brackets. -/
structure Documented (v : Json) : Prop where
  parse_print : lib.parse (lib.print v) = some v
  object : ∀ members, v = .object members →
    (lib.print v).head? = some 0x7B ∧ (lib.print v).getLast? = some 0x7D
  array : ∀ items, v = .array items →
    (lib.print v).head? = some 0x5B ∧ (lib.print v).getLast? = some 0x5D

/-- `optString`. -/
def optString (members : List (CodeUnits × Json)) (name fallback : CodeUnits) : CodeUnits :=
  match member members name with
  | none => fallback
  | some (.string s) => s
  | some json => lib.coerceString json

/-- `JSON.toInteger`. -/
def toInteger : Json → Option (BitVec 32)
  | .number q =>
    if q.den = 1 ∧ -2 ^ 31 ≤ q.num ∧ q.num < 2 ^ 31 then some (BitVec.ofInt 32 q.num)
    else lib.coerceInt (.number q)
  | json => lib.coerceInt json

/-- `optInt`. -/
def optInt (members : List (CodeUnits × Json)) (name : CodeUnits) : BitVec 32 :=
  ((member members name).bind lib.toInteger).getD 0

/-- `optDouble(name, fallback).toFloat()`. -/
def optFloat (members : List (CodeUnits × Json)) (name : CodeUnits) (fallback : ℚ) : F :=
  match member members name with
  | some (.number q) => FloatNumber.ofNumber q
  | some json => (lib.coerceFloat json).getD (FloatNumber.ofNumber fallback)
  | none => FloatNumber.ofNumber fallback

/-- `optBoolean`. -/
def optBoolean (members : List (CodeUnits × Json)) (name : CodeUnits) (fallback : Bool) : Bool :=
  match member members name with
  | some (.boolean b) => b
  | some json => (lib.coerceBoolean json).getD fallback
  | none => fallback

/-- `optJSONArray`. -/
def optJSONArray (members : List (CodeUnits × Json)) (name : CodeUnits) : Option (List Json) :=
  match member members name with
  | some (.array items) => some items
  | _ => none

end HudJson

/-- `optJSONObject` of an element. -/
def Json.asObject : Json → Option (List (CodeUnits × Json))
  | .object members => some members
  | _ => none

/-! ## Names -/

namespace HudKind

/-- The name of a kind. -/
def name : HudKind → CodeUnits
  | MOUSE_LEFT => lit "MOUSE_LEFT"
  | MOUSE_RIGHT => lit "MOUSE_RIGHT"
  | MOUSE_MIDDLE => lit "MOUSE_MIDDLE"
  | MOUSE_SWAP => lit "MOUSE_SWAP"
  | SCROLL_UP => lit "SCROLL_UP"
  | SCROLL_DOWN => lit "SCROLL_DOWN"
  | SCROLL_SLIDER => lit "SCROLL_SLIDER"
  | PAD_STICK => lit "PAD_STICK"
  | INPUT_SWITCH => lit "INPUT_SWITCH"
  | KEYBOARD => lit "KEYBOARD"
  | KEY => lit "KEY"
  | COMBO => lit "COMBO"
  | MACRO => lit "MACRO"

/-- The title of a kind. -/
def title : HudKind → CodeUnits
  | MOUSE_LEFT => lit "Klik kiri"
  | MOUSE_RIGHT => lit "Klik kanan"
  | MOUSE_MIDDLE => lit "Klik tengah"
  | MOUSE_SWAP => lit "Tukar klik kiri/kanan"
  | SCROLL_UP => lit "Scroll naik"
  | SCROLL_DOWN => lit "Scroll turun"
  | SCROLL_SLIDER => lit "Geser scroll"
  | PAD_STICK => lit "Joystick analog"
  | INPUT_SWITCH => lit "Ganti mode input"
  | KEYBOARD => lit "Buka keyboard"
  | KEY => lit "Tombol keyboard"
  | COMBO => lit "Kombinasi"
  | MACRO => lit "Makro otomatis"

/-- All kinds. -/
def entries : List HudKind :=
  [MOUSE_LEFT, MOUSE_RIGHT, MOUSE_MIDDLE, MOUSE_SWAP, SCROLL_UP, SCROLL_DOWN, SCROLL_SLIDER,
    PAD_STICK, INPUT_SWITCH, KEYBOARD, KEY, COMBO, MACRO]

/-- `valueOf`, which throws on a name of no kind. -/
def valueOf (s : CodeUnits) : Option HudKind := entries.find? fun kind => kind.name = s

theorem valueOf_name (kind : HudKind) : valueOf kind.name = some kind := by
  cases kind <;> decide

end HudKind

namespace HudAction

/-- The name of an action. -/
def name : HudAction → CodeUnits
  | TAP => lit "TAP"
  | ONE_SHOT => lit "ONE_SHOT"
  | HOLD => lit "HOLD"
  | TOGGLE => lit "TOGGLE"

/-- All actions. -/
def entries : List HudAction := [TAP, ONE_SHOT, HOLD, TOGGLE]

/-- `valueOf`. -/
def valueOf (s : CodeUnits) : Option HudAction := entries.find? fun action => action.name = s

theorem valueOf_name (action : HudAction) : valueOf action.name = some action := by
  cases action <;> decide

end HudAction

/-! ## Writing and reading -/

namespace HudKey

variable {F : Type} [ComparedFloat F]

/-- The members that are always written. -/
def plainMembers (key : HudKey F) (x y size : ℚ) : List (CodeUnits × Json) :=
  [(lit "id", .string key.id), (lit "kind", .string key.kind.name),
    (lit "label", .string key.label), (lit "code", .number key.keyCode.toInt),
    (lit "shift", .boolean key.shift),
    (lit "combo", .array (key.combo.map fun code => .number code.toInt)),
    (lit "action", .string key.action.name), (lit "x", .number x), (lit "y", .number y),
    (lit "size", .number size)]

/-- The members that are written when they say something. -/
def optionalMembers (key : HudKey F) : List (CodeUnits × Json) :=
  (if key.macroText ≠ [] then
    [(lit "macroText", .string key.macroText), (lit "macroEnter", .boolean key.macroSendEnter)]
    else []) ++
  (if key.pad then [(lit "pad", .boolean true)] else []) ++
  (if key.turbo then [(lit "turbo", .boolean true)] else [])

/-- `toJson`; a number that is not finite makes `put` throw. -/
def toJson (key : HudKey F) : Option (List (CodeUnits × Json)) := do
  let x ← FloatNumber.toNumber key.x
  let y ← FloatNumber.toNumber key.y
  let size ← FloatNumber.toNumber key.size
  some (key.plainMembers x y size ++ key.optionalMembers)

/-- The array of a layout. -/
def keysJson (list : List (HudKey F)) : Option (List Json) :=
  list.mapM fun key => key.toJson.map Json.object

/-- The object of a layout. -/
def layoutJson (list : List (HudKey F)) : Option Json :=
  (keysJson (list.take maxKeys)).map fun keys =>
    .object [(lit "app", .string (lit "XyDesk Remote")), (lit "version", .number 1),
      (lit "keys", .array keys)]

variable (lib : HudJson F)

/-- `encode`: the layout for the preferences. -/
def encode (list : List (HudKey F)) : Option CodeUnits :=
  (keysJson list).map fun keys => lib.print (.array keys)

/-- `exportLayoutJson`: the layout for a file. -/
def exportLayoutJson (list : List (HudKey F)) : Option CodeUnits :=
  (layoutJson list).map lib.print

/-- `fromJson`. -/
def fromJson (o : List (CodeUnits × Json)) : Option (HudKey F) := do
  let id := lib.optString o (lit "id") []
  guard (KotlinText.isBlank id = false)
  let kind ← HudKind.valueOf (lib.optString o (lit "kind") [])
  let parsedAction := (HudAction.valueOf (lib.optString o (lit "action") [])).getD .TAP
  some
    { id := id
      kind := kind
      label := lib.optString o (lit "label") kind.title
      keyCode := lib.optInt o (lit "code")
      shift := lib.optBoolean o (lit "shift") false
      combo := ((HudJson.optJSONArray o (lit "combo")).getD []).map fun code =>
        (lib.toInteger code).getD 0
      action := validAction kind parsedAction
      x := coerceIn (lib.optFloat o (lit "x") (78 / 100)) (whole 0) (whole 1)
      y := coerceIn (lib.optFloat o (lit "y") (42 / 100)) (whole 0) (whole 1)
      size := coerceIn (lib.optFloat o (lit "size") 46) (whole minSize) (whole maxSize)
      macroText := lib.optString o (lit "macroText") []
      macroSendEnter := lib.optBoolean o (lit "macroEnter") true
      pad := lib.optBoolean o (lit "pad") false
      turbo := lib.optBoolean o (lit "turbo") false }

/-- The buttons among the elements of an array. -/
def readKeys (items : List Json) : List (HudKey F) :=
  items.filterMap fun item => item.asObject.bind (fromJson lib)

/-- `decode`. -/
def decode (raw : Option CodeUnits) : Option (List (HudKey F)) :=
  match raw with
  | none => none
  | some raw =>
    if KotlinText.isBlank raw then none
    else
      match lib.parse raw with
      | some (.array items) => some (readKeys lib items)
      | _ => none

/-- The array that an imported text has. -/
def importedArray (trimmed : CodeUnits) : Option (List Json) :=
  if trimmed.head? = some 0x7B then
    match lib.parse trimmed with
    | some (.object members) => HudJson.optJSONArray members (lit "keys")
    | _ => none
  else
    match lib.parse trimmed with
    | some (.array items) => some items
    | _ => none

/-- `importLayoutJson`. -/
def importLayoutJson (raw : Option CodeUnits) (defaultSize : F) : Option (List (HudKey F)) :=
  let trimmed := KotlinText.trim (raw.getD [])
  if trimmed = [] then none
  else
    match importedArray lib trimmed with
    | none => none
    | some items =>
      let layout := normalizeImportedKeys (readKeys lib (items.take maxKeys)) defaultSize
      if layout = [] then none else some layout

end HudKey

/-! ## One button there and back -/

namespace HudKey

variable {F : Type} (lib : HudJson F)

theorem member_append (ms ms' : List (CodeUnits × Json)) (name : CodeUnits) :
    member (ms ++ ms') name =
      (member ms name).or (member ms' name) := by
  rw [member, find?_append, Option.map_or]
  rfl

/-- What is found of the members that are always written. -/
theorem member_plainMembers (key : HudKey F) (x y size : ℚ) :
    member (key.plainMembers x y size) (lit "id") = some (.string key.id) ∧
    member (key.plainMembers x y size) (lit "kind") = some (.string key.kind.name) ∧
    member (key.plainMembers x y size) (lit "label") = some (.string key.label) ∧
    member (key.plainMembers x y size) (lit "code") =
      some (.number key.keyCode.toInt) ∧
    member (key.plainMembers x y size) (lit "shift") = some (.boolean key.shift) ∧
    member (key.plainMembers x y size) (lit "combo") =
      some (.array (key.combo.map fun code => .number code.toInt)) ∧
    member (key.plainMembers x y size) (lit "action") =
      some (.string key.action.name) ∧
    member (key.plainMembers x y size) (lit "x") = some (.number x) ∧
    member (key.plainMembers x y size) (lit "y") = some (.number y) ∧
    member (key.plainMembers x y size) (lit "size") = some (.number size) :=
  ⟨rfl, rfl, rfl, rfl, rfl, rfl, rfl, rfl, rfl, rfl⟩

/-- The other names are not among them. -/
theorem member_plainMembers_eq_none (key : HudKey F) (x y size : ℚ) :
    member (key.plainMembers x y size) (lit "macroText") = none ∧
    member (key.plainMembers x y size) (lit "macroEnter") = none ∧
    member (key.plainMembers x y size) (lit "pad") = none ∧
    member (key.plainMembers x y size) (lit "turbo") = none :=
  ⟨rfl, rfl, rfl, rfl⟩

theorem member_optionalMembers (key : HudKey F) :
    member key.optionalMembers (lit "macroText") =
      (if key.macroText ≠ [] then some (.string key.macroText) else none) ∧
    member key.optionalMembers (lit "macroEnter") =
      (if key.macroText ≠ [] then some (.boolean key.macroSendEnter) else none) ∧
    member key.optionalMembers (lit "pad") =
      (if key.pad then some (.boolean true) else none) ∧
    member key.optionalMembers (lit "turbo") =
      (if key.turbo then some (.boolean true) else none) := by
  rw [optionalMembers]
  by_cases hmacro : key.macroText ≠ []
  · rw [if_pos hmacro, if_pos hmacro, if_pos hmacro]
    cases key.pad with
    | false => cases key.turbo <;> exact ⟨rfl, rfl, rfl, rfl⟩
    | true => cases key.turbo <;> exact ⟨rfl, rfl, rfl, rfl⟩
  · rw [if_neg hmacro, if_neg hmacro, if_neg hmacro]
    cases key.pad with
    | false => cases key.turbo <;> exact ⟨rfl, rfl, rfl, rfl⟩
    | true => cases key.turbo <;> exact ⟨rfl, rfl, rfl, rfl⟩

theorem toInteger_number (code : BitVec 32) :
    lib.toInteger (.number (code.toInt : ℚ)) = some code := by
  have hlow := BitVec.le_toInt code
  have hhigh := BitVec.toInt_lt (x := code)
  rw [HudJson.toInteger, if_pos ⟨Rat.den_intCast _, by rw [Rat.num_intCast]; exact hlow,
    by rw [Rat.num_intCast]; exact hhigh⟩, Rat.num_intCast, BitVec.ofInt_toInt]

theorem opt_optionalMembers (key : HudKey F) (x y size : ℚ) :
    lib.optString (key.plainMembers x y size ++ key.optionalMembers) (lit "macroText") [] =
      key.macroText ∧
    lib.optBoolean (key.plainMembers x y size ++ key.optionalMembers) (lit "macroEnter") true =
      (if key.macroText = [] then true else key.macroSendEnter) ∧
    lib.optBoolean (key.plainMembers x y size ++ key.optionalMembers) (lit "pad") false =
      key.pad ∧
    lib.optBoolean (key.plainMembers x y size ++ key.optionalMembers) (lit "turbo") false =
      key.turbo := by
  obtain ⟨hnoText, hnoEnter, hnoPad, hnoTurbo⟩ := key.member_plainMembers_eq_none x y size
  obtain ⟨htext, henter, hpad, hturbo⟩ := key.member_optionalMembers
  refine ⟨?_, ?_, ?_, ?_⟩
  · rw [HudJson.optString, member_append, hnoText, htext]
    by_cases hmacro : key.macroText = []
    · rw [if_neg (not_not.2 hmacro), hmacro]
      rfl
    · rw [if_pos hmacro]
      rfl
  · rw [HudJson.optBoolean, member_append, hnoEnter, henter]
    by_cases hmacro : key.macroText = []
    · rw [if_neg (not_not.2 hmacro), if_pos hmacro]
      rfl
    · rw [if_pos hmacro, if_neg hmacro]
      rfl
  · rw [HudJson.optBoolean, member_append, hnoPad, hpad]
    cases key.pad <;> rfl
  · rw [HudJson.optBoolean, member_append, hnoTurbo, hturbo]
    cases key.turbo <;> rfl

/-- What comes back of a button: without a macro there is no word about its Enter key. -/
def readBack (key : HudKey F) : HudKey F :=
  { key with macroSendEnter := if key.macroText = [] then true else key.macroSendEnter }

variable [ComparedFloat F]

/-- A number in its range is read as it was written. -/
theorem coerceIn_optFloat {members : List (CodeUnits × Json)} {name : CodeUnits} {low high : ℕ}
    {z : F} {q : ℚ} (hlow : low ≤ 2 ^ 24) (hhigh : high ≤ 2 ^ 24) (hz : InRange low high z)
    (hq : FloatNumber.toNumber z = some q)
    (hmember : member members name = some (.number q)) (fallback : ℚ) :
    coerceIn (lib.optFloat members name fallback) (whole low) (whole high) = z := by
  rw [HudJson.optFloat, hmember]
  dsimp only
  rw [FloatNumber.ofNumber_toNumber _ _ hq]
  exact coerceIn_of_inRange hlow hhigh hz

/-- **A valid button is read back.** -/
theorem fromJson_toJson {key : HudKey F} (h : key.IsValid) :
    ∃ o, key.toJson = some o ∧ fromJson lib o = some key.readBack := by
  obtain ⟨x, hx⟩ := exists_toNumber_of_inRange h.x
  obtain ⟨y, hy⟩ := exists_toNumber_of_inRange h.y
  obtain ⟨size, hsize⟩ := exists_toNumber_of_inRange h.size
  refine ⟨key.plainMembers x y size ++ key.optionalMembers, ?_, ?_⟩
  · rw [toJson, hx, hy, hsize]
    rfl
  · obtain ⟨hid, hkind, hlabel, hcode, hshift, hcombo, haction, hmx, hmy, hmsize⟩ :=
      key.member_plainMembers x y size
    obtain ⟨htext, henter, hpad, hturbo⟩ := opt_optionalMembers lib key x y size
    have hfound : ∀ {name : CodeUnits} {json : Json},
        member (key.plainMembers x y size) name = some json →
          member (key.plainMembers x y size ++ key.optionalMembers) name =
            some json := by
      intro name json hjson
      rw [member_append, hjson, Option.some_or]
    have hvalid : validAction key.kind key.action = key.action := if_pos h.action
    have hcomboBack : (key.combo.map fun code => Json.number (code.toInt : ℚ)).map
        (fun code => (lib.toInteger code).getD 0) = key.combo := by
      rw [map_map]
      apply map_id''
      intro code
      rw [Function.comp_apply, toInteger_number, Option.getD_some]
    rw [fromJson, htext, henter, hpad, hturbo,
      coerceIn_optFloat lib (by decide) (by decide) h.x hx (hfound hmx),
      coerceIn_optFloat lib (by decide) (by decide) h.y hy (hfound hmy),
      coerceIn_optFloat lib (by decide) (by decide) h.size hsize (hfound hmsize)]
    simp only [HudJson.optString, HudJson.optInt, HudJson.optBoolean, HudJson.optJSONArray,
      hfound hid, hfound hkind, hfound hlabel, hfound hcode, hfound hshift, hfound hcombo,
      hfound haction, Option.getD_some, Option.bind_some, HudKind.valueOf_name,
      HudAction.valueOf_name, toInteger_number, hcomboBack, h.notBlank, guard, if_true,
      Option.pure_def, Option.bind_eq_bind, hvalid]
    rfl

/-! ## Layouts there and back -/

/-- A layout of valid buttons is written, and its array read back. -/
theorem readKeys_keysJson {list : List (HudKey F)} (h : ∀ key ∈ list, key.IsValid) :
    ∃ items, keysJson list = some items ∧ items.length = list.length ∧
      readKeys lib items = list.map readBack := by
  induction list with
  | nil => exact ⟨[], rfl, rfl, rfl⟩
  | cons key list ih =>
    obtain ⟨o, ho, hread⟩ := fromJson_toJson lib (h key mem_cons_self)
    obtain ⟨items, hitems, hlength, hreads⟩ :=
      ih fun key hkey => h key (mem_cons_of_mem _ hkey)
    refine ⟨.object o :: items, ?_, ?_, ?_⟩
    · rw [keysJson] at hitems ⊢
      rw [mapM_cons, hitems, ho]
      rfl
    · rw [length_cons, length_cons, hlength]
    · rw [readKeys, filterMap_cons_some (b := key.readBack)]
      · exact congrArg _ hreads
      · exact hread

/-- **A well-formed layout comes back from a file and from the preferences**, but for the
Enter key of macros without a text. -/
theorem layout_read (lib : HudJson F) {list : List (HudKey F)} (defaultSize : F)
    (hne : list ≠ []) (hfew : list.length ≤ maxKeys) (hdistinct : (list.map HudKey.id).Nodup)
    (hvalid : ∀ key ∈ list, key.IsValid)
    (hlayout : ∀ v, layoutJson list = some v → lib.Documented v)
    (hkeys : ∀ items, keysJson list = some items → lib.Documented (.array items)) :
    (∃ text, exportLayoutJson lib list = some text ∧
      importLayoutJson lib (some text) defaultSize = some (list.map readBack)) ∧
    ∃ text, encode lib list = some text ∧ decode lib (some text) = some (list.map readBack) := by
  obtain ⟨items, hitems, hlength, hread⟩ := readKeys_keysJson lib hvalid
  constructor
  · have hjson : layoutJson list = some (.object [(lit "app", .string (lit "XyDesk Remote")),
        (lit "version", .number 1), (lit "keys", .array items)]) := by
      rw [layoutJson, take_of_length_le hfew, hitems]
      rfl
    have hdoc := hlayout _ hjson
    obtain ⟨hopen, hclose⟩ := hdoc.object _ rfl
    refine ⟨_, congrArg (Option.map lib.print) hjson, ?_⟩
    have htrim := KotlinText.trim_eq_self_iff.2 (And.intro
      (fun u hu => by
        obtain rfl := Option.some.inj (hopen.symm.trans hu)
        decide)
      (fun u hu => by
        obtain rfl := Option.some.inj (hclose.symm.trans hu)
        decide))
    have harray : importedArray lib (lib.print (.object [(lit "app",
        .string (lit "XyDesk Remote")), (lit "version", .number 1), (lit "keys", .array items)])) =
        some items := by
      rw [importedArray, if_pos hopen, hdoc.parse_print]
      rfl
    have hback : normalizeImportedKeys (list.map readBack) defaultSize = list.map readBack := by
      apply normalizeImportedKeys_of_isValid
      · rwa [length_map]
      · rwa [map_map]
      · intro key hkey
        obtain ⟨key, hmem, rfl⟩ := mem_map.1 hkey
        exact ⟨(hvalid key hmem).1, (hvalid key hmem).2, (hvalid key hmem).3, (hvalid key hmem).4,
          (hvalid key hmem).5, (hvalid key hmem).6, (hvalid key hmem).7⟩
    have htext : lib.print (.object [(lit "app", .string (lit "XyDesk Remote")),
        (lit "version", .number 1), (lit "keys", .array items)]) ≠ [] := by
      intro hnil
      rw [hnil] at hopen
      cases hopen
    rw [importLayoutJson, Option.getD_some, htrim, if_neg htext, harray]
    dsimp only
    rw [take_of_length_le (by omega), hread, hback, if_neg (mt map_eq_nil_iff.1 hne)]
  · have hdoc := hkeys items hitems
    obtain ⟨hopen, -⟩ := hdoc.array _ rfl
    refine ⟨_, congrArg (Option.map fun keys => lib.print (.array keys)) hitems, ?_⟩
    have hblank : KotlinText.isBlank (lib.print (.array items)) = false := by
      cases hprint : lib.print (.array items) with
      | nil =>
        rw [hprint] at hopen
        cases hopen
      | cons u s =>
        rw [hprint] at hopen
        obtain rfl := Option.some.inj hopen
        rw [KotlinText.isBlank, all_cons]
        exact Bool.false_and _
    have hcondition : ¬ KotlinText.isBlank (lib.print (.array items)) = true := by
      rw [hblank]
      decide
    rw [decode, if_neg hcondition, hdoc.parse_print]
    exact congrArg some hread

/-! ## A layout of two buttons, and one without a macro -/

/-- A library that knows one array of buttons and its text, alone and in an export. -/
def arrayJson (keys : CodeUnits) (items : List Json) : HudJson ℚ where
  print v :=
    match v with
    | .object _ =>
      lit "\x7b\"app\":\"XyDesk Remote\",\"version\":1,\"keys\":" ++ keys ++ lit "\x7d"
    | _ => keys
  parse s :=
    if s.head? = some 0x7B then
      some (.object [(lit "app", .string (lit "XyDesk Remote")), (lit "version", .number 1),
        (lit "keys", .array items)])
    else some (.array items)
  coerceString _ := []
  coerceInt _ := none
  coerceFloat _ := none
  coerceBoolean _ := none

/-- A button that types a text, and one that presses two keys. -/
def twoKeys : List (HudKey ℚ) :=
  [{ id := lit "salam", kind := .MACRO, label := lit "Salam", x := 0, y := 1, size := 64,
      macroText := lit "halo", macroSendEnter := false, pad := true },
    { id := lit "salin", kind := .COMBO, label := lit "Salin", shift := true, combo := [113, 31],
      x := 1, y := 0, size := 34, turbo := true }]

/-- A JSON library for that layout. -/
def twoKeyJson : HudJson ℚ :=
  arrayJson
    (lit "[\x7b\"id\":\"salam\",\"kind\":\"MACRO\",\"label\":\"Salam\",\"code\":0," ++
      lit "\"shift\":false,\"combo\":[],\"action\":\"TAP\",\"x\":0,\"y\":1,\"size\":64," ++
      lit "\"macroText\":\"halo\",\"macroEnter\":false,\"pad\":true\x7d," ++
      lit "\x7b\"id\":\"salin\",\"kind\":\"COMBO\",\"label\":\"Salin\",\"code\":0," ++
      lit "\"shift\":true,\"combo\":[113,31],\"action\":\"TAP\",\"x\":1,\"y\":0," ++
      lit "\"size\":34,\"turbo\":true\x7d]")
    (twoKeys.map fun key => .object (key.plainMembers key.x key.y key.size ++ key.optionalMembers))

/-- Both buttons come back as they are. -/
theorem layout_read_two :
    let _ : ComparedFloat ℚ := exactFloat
    (∃ text, exportLayoutJson twoKeyJson twoKeys = some text ∧
      importLayoutJson twoKeyJson (some text) 46 = some (twoKeys.map readBack)) ∧
    ∃ text, encode twoKeyJson twoKeys = some text ∧
      decode twoKeyJson (some text) = some (twoKeys.map readBack) := by
  intro _
  have hrange : ∀ {low high : ℕ} {q : ℚ}, low ≤ q → q ≤ high → InRange low high q :=
    fun hlow hhigh => ⟨_, rfl, extended_le_extended hlow, extended_le_extended hhigh⟩
  apply layout_read twoKeyJson 46 (by decide) (by decide) (by decide)
  · intro key hkey
    rcases mem_pair.1 hkey with rfl | rfl
    · exact ⟨by decide, by decide, by decide, by decide, hrange (by decide) (by decide),
        hrange (by decide) (by decide), hrange (by decide) (by decide)⟩
    · exact ⟨by decide, by decide, by decide, by decide, hrange (by decide) (by decide),
        hrange (by decide) (by decide), hrange (by decide) (by decide)⟩
  · intro v hv
    obtain rfl := Option.some.inj hv
    exact ⟨rfl, fun _ _ => ⟨by decide +kernel, by decide +kernel⟩, nofun⟩
  · intro items hitems
    obtain rfl := Option.some.inj hitems
    exact ⟨rfl, nofun, fun _ _ => ⟨by decide +kernel, by decide +kernel⟩⟩

/-- A library that knows the layouts of one button with a name. -/
def oneKeyJson : HudJson ℚ :=
  arrayJson
    (lit "[\x7b\"id\":\"kiri\",\"kind\":\"MOUSE_LEFT\",\"label\":\"Kiri\",\"code\":0," ++
      lit "\"shift\":false,\"combo\":[],\"action\":\"TAP\",\"x\":0,\"y\":0,\"size\":46\x7d]")
    [.object ((mouseKey "kiri").plainMembers 0 0 46)]

/-- **A macro that is not to end with the Enter key and has no text yet** comes back as one
that does. -/
theorem macroSendEnter_not_read :
    let _ : ComparedFloat ℚ := exactFloat
    let key := { mouseKey "kiri" with macroSendEnter := false }
    ∃ text, exportLayoutJson oneKeyJson [key] = some text ∧
      oneKeyJson.parse text = layoutJson [key] ∧
      importLayoutJson oneKeyJson (some text) 46 ≠ some [key] := by
  intro _ key
  refine ⟨_, rfl, rfl, ?_⟩
  intro h
  have henter := congrArg (Option.map (List.map HudKey.macroSendEnter)) h
  revert henter
  decide

end HudKey
