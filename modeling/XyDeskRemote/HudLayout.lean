/-
# Imported layouts of the session's buttons

`normalizeImportedKeys` takes a list of buttons from somebody else's file: at most 36 of
them, none of the kinds and names that are gone from the product, every action one that its
kind knows, every number in its range.  A name that was seen before gets the position of the
button behind it.
-/
import XyDeskRemote.CloudSync

open WorkerText KotlinText List Option Nat

/-! ## Numbers -/

/-- A number among the numbers and the two infinities. -/
def ComparedFloat.extended (q : ℚ) : WithBot (WithTop ℚ) := WithBot.some (WithTop.some q)

theorem ComparedFloat.extended_le_extended {q r : ℚ} (h : q ≤ r) : extended q ≤ extended r :=
  WithBot.coe_le_coe.2 (WithTop.coe_le_coe.2 h)

/-- What the layout needs of the machine's single floats beyond that: the number or infinity
of each but those that are not a number, and small whole numbers. -/
class ComparedFloat (F : Type) extends FloatNumber F where
  value : F → Option (WithBot (WithTop ℚ))
  value_eq_extended_iff : ∀ x q, value x = some (ComparedFloat.extended q) ↔ toNumber x = some q
  toNumber_ofNumber : ∀ n : ℕ, n ≤ 2 ^ 24 → toNumber (ofNumber n) = some (n : ℚ)

namespace ComparedFloat

variable {F : Type} [ComparedFloat F]

/-- A small whole number. -/
def whole (n : ℕ) : F := FloatNumber.ofNumber (n : ℚ)

/-- `x < y`; nothing is less than what is not a number. -/
def less (x y : F) : Bool :=
  match value x, value y with
  | some v, some w => decide (v < w)
  | _, _ => false

/-- `x.coerceIn(low, high)`. -/
def coerceIn (x low high : F) : F :=
  if less x low then low else if less high x then high else x

/-- A number from `low` to `high`. -/
def InRange (low high : ℕ) (x : F) : Prop :=
  ∃ v, value x = some v ∧ extended low ≤ v ∧ v ≤ extended high

theorem less_of_value_eq_none {x y : F} (h : value x = none ∨ value y = none) :
    less x y = false := by
  rw [less]
  rcases h with hx | hy
  · rw [hx]
  · rw [hy]
    cases value x with
    | none => rfl
    | some v => rfl

theorem value_whole {n : ℕ} (h : n ≤ 2 ^ 24) :
    value (whole n : F) = some (extended n) :=
  (value_eq_extended_iff _ _).2 (toNumber_ofNumber n h)

variable {low high : ℕ} {x : F}

theorem inRange_whole {n : ℕ} (h : n ≤ 2 ^ 24) (hlow : low ≤ n) (hhigh : n ≤ high) :
    InRange low high (whole n : F) := by
  refine ⟨_, value_whole h, ?_, ?_⟩
  · exact extended_le_extended (cast_le.2 hlow)
  · exact extended_le_extended (cast_le.2 hhigh)

theorem less_whole_of_inRange (h : InRange low high x) {n : ℕ} (hn : n ≤ 2 ^ 24)
    (hlow : n ≤ low) : less x (whole n) = false := by
  obtain ⟨v, hv, hle, -⟩ := h
  rw [less, hv, value_whole hn]
  apply decide_eq_false
  apply not_lt.2
  exact le_trans (extended_le_extended (cast_le.2 hlow)) hle

theorem less_zero_of_inRange (h : InRange low high x) (hlow : 0 < low) :
    less (whole 0) x = true := by
  obtain ⟨v, hv, hle, -⟩ := h
  rw [less, hv, value_whole (zero_le _)]
  apply decide_eq_true
  refine lt_of_lt_of_le ?_ hle
  exact WithBot.coe_lt_coe.2 (WithTop.coe_lt_coe.2 (cast_lt.2 hlow))

theorem whole_less_of_inRange (h : InRange low high x) {n : ℕ} (hn : n ≤ 2 ^ 24)
    (hhigh : high ≤ n) : less (whole n) x = false := by
  obtain ⟨v, hv, -, hle⟩ := h
  rw [less, hv, value_whole hn]
  apply decide_eq_false
  apply not_lt.2
  exact le_trans hle (extended_le_extended (cast_le.2 hhigh))

theorem exists_toNumber_of_inRange (h : InRange low high x) :
    ∃ q, FloatNumber.toNumber x = some q := by
  obtain ⟨v, hv, hlow, hhigh⟩ := h
  induction v with
  | bot => exact absurd hlow (not_le.2 (WithBot.bot_lt_coe _))
  | coe v =>
    induction v with
    | top => exact absurd hhigh (not_le.2 (WithBot.coe_lt_coe.2 (WithTop.coe_lt_top _)))
    | coe q => exact ⟨q, (value_eq_extended_iff x q).1 hv⟩

theorem coerceIn_of_inRange (hlow : low ≤ 2 ^ 24) (hhigh : high ≤ 2 ^ 24)
    (h : InRange low high x) : coerceIn x (whole low) (whole high) = x := by
  rw [coerceIn, if_neg (by rw [less_whole_of_inRange h hlow le_rfl]; decide),
    if_neg (by rw [whole_less_of_inRange h hhigh le_rfl]; decide)]

/-- **Only what is not a number stays out of the range.** -/
theorem inRange_coerceIn_iff (hlow : low ≤ high) (hhigh : high ≤ 2 ^ 24) :
    InRange low high (coerceIn x (whole low) (whole high)) ↔ value x ≠ none := by
  have hlow' : low ≤ 2 ^ 24 := hlow.trans hhigh
  cases hx : value x with
  | none =>
    rw [coerceIn, less_of_value_eq_none (Or.inl hx), less_of_value_eq_none (Or.inr hx)]
    refine ⟨fun h => ?_, fun h => absurd rfl h⟩
    obtain ⟨v, hv, -⟩ := h
    exact absurd (hx.symm.trans hv) nofun
  | some v =>
    refine ⟨fun _ => nofun, fun _ => ?_⟩
    rw [coerceIn]
    split
    · exact inRange_whole hlow' le_rfl hlow
    · rename_i hless
      split
      · exact inRange_whole hhigh hlow le_rfl
      · rename_i hless'
        rw [less, hx, value_whole hlow', Bool.not_eq_true, decide_eq_false_iff_not] at hless
        rw [less, hx, value_whole hhigh, Bool.not_eq_true, decide_eq_false_iff_not] at hless'
        exact ⟨v, hx, not_lt.1 hless, not_lt.1 hless'⟩

end ComparedFloat

/-! ## Buttons -/

/-- What a button does when it is pressed. -/
inductive HudAction where
  | TAP | ONE_SHOT | HOLD | TOGGLE
  deriving DecidableEq

/-- The kinds of buttons. -/
inductive HudKind where
  | MOUSE_LEFT | MOUSE_RIGHT | MOUSE_MIDDLE | MOUSE_SWAP | SCROLL_UP | SCROLL_DOWN
  | SCROLL_SLIDER | PAD_STICK | INPUT_SWITCH | KEYBOARD | KEY | COMBO | MACRO
  deriving DecidableEq

/-- A button. -/
structure HudKey (F : Type) where
  id : CodeUnits
  kind : HudKind
  label : CodeUnits
  keyCode : BitVec 32 := 0
  shift : Bool := false
  combo : List (BitVec 32) := []
  action : HudAction := .TAP
  x : F
  y : F
  size : F
  macroText : CodeUnits := []
  macroSendEnter : Bool := true
  pad : Bool := false
  turbo : Bool := false

namespace HudKey

open ComparedFloat

/-- The smallest size. -/
def minSize : ℕ := 34

/-- The largest size. -/
def maxSize : ℕ := 96

/-- The most buttons. -/
def maxKeys : ℕ := 36

/-- The actions of a kind. -/
def allowedActions : HudKind → List HudAction
  | .KEY => [.TAP, .ONE_SHOT, .HOLD, .TOGGLE]
  | .MOUSE_LEFT | .MOUSE_RIGHT | .MOUSE_MIDDLE => [.TAP, .HOLD, .TOGGLE]
  | _ => [.TAP]

theorem tap_mem_allowedActions (kind : HudKind) : .TAP ∈ allowedActions kind := by
  cases kind <;> exact mem_cons_self

/-- `action.takeIf { it in allowedActions(kind) } ?: TAP`. -/
def validAction (kind : HudKind) (action : HudAction) : HudAction :=
  if action ∈ allowedActions kind then action else .TAP

theorem validAction_mem (kind : HudKind) (action : HudAction) :
    validAction kind action ∈ allowedActions kind := by
  rw [validAction]
  split
  · assumption
  · exact tap_mem_allowedActions kind

variable {F : Type}

/-- Neither the button that shows the keyboard, nor one of its old upper row, nor one without
a name. -/
def isImportable (item : HudKey F) : Bool :=
  !(item.kind = .KEYBOARD || lit "aux_" <+: item.id || isBlank item.id)

/-- `"${id}_$i"`. -/
def suffixed (id : CodeUnits) (i : ℕ) : CodeUnits := id ++ 0x5F :: decimal i

variable [ComparedFloat F]

/-- The button with its name, and everything else put in its place. -/
def imported (defaultSize : F) (uniqueId : CodeUnits) (item : HudKey F) : HudKey F :=
  let size := coerceIn item.size (whole minSize) (whole maxSize)
  { item with
    id := uniqueId
    action := validAction item.kind item.action
    x := coerceIn item.x (whole 0) (whole 1)
    y := coerceIn item.y (whole 0) (whole 1)
    size := if less (whole 0) size then size
      else coerceIn defaultSize (whole minSize) (whole maxSize) }

/-- `mapIndexed` from the index `i` on, with the names seen so far. -/
def importFrom (defaultSize : F) (i : ℕ) (seenIds : List CodeUnits) :
    List (HudKey F) → List (HudKey F)
  | [] => []
  | item :: items =>
    let uniqueId := if item.id ∈ seenIds then suffixed item.id i else item.id
    imported defaultSize uniqueId item ::
      importFrom defaultSize (i + 1) (uniqueId :: item.id :: seenIds) items

/-- The buttons that are taken over. -/
def taken (items : List (HudKey F)) : List (HudKey F) := (items.filter isImportable).take maxKeys

/-- `normalizeImportedKeys`. -/
def normalizeImportedKeys (items : List (HudKey F)) (defaultSize : F) : List (HudKey F) :=
  importFrom defaultSize 0 [] (taken items)

end HudKey

/-! ## What a well-formed layout is -/

namespace HudKey

open ComparedFloat

variable {F : Type} [ComparedFloat F]

/-- A button that can stand in an imported layout. -/
structure IsValid (key : HudKey F) : Prop where
  notBlank : isBlank key.id = false
  notAux : ¬ lit "aux_" <+: key.id
  notKeyboard : key.kind ≠ .KEYBOARD
  action : key.action ∈ allowedActions key.kind
  x : InRange 0 1 key.x
  y : InRange 0 1 key.y
  size : InRange minSize maxSize key.size

/-- The same button but for what an import may change. -/
def SameButton (item key : HudKey F) : Prop :=
  key = { item with
    id := key.id, action := key.action, x := key.x, y := key.y, size := key.size }

/-- What an imported layout has to be: few buttons with names of their own, each of them valid
and one of the input, in its order; and importing it again changes nothing. -/
structure WellImported (items : List (HudKey F)) (defaultSize : F) (layout : List (HudKey F)) :
    Prop where
  few : layout.length ≤ maxKeys
  distinct : (layout.map HudKey.id).Nodup
  valid : ∀ key ∈ layout, key.IsValid
  inOrder : ∃ kept, kept.Sublist items ∧ List.Forall₂ SameButton kept layout
  stable : normalizeImportedKeys layout defaultSize = layout

/-! ## Names -/

/-- The name at an index was seen before: it is the one of an earlier button, or the new one
that such a button got. -/
inductive Repeated (ids : List CodeUnits) : ℕ → Prop
  | same {k i : ℕ} {id : CodeUnits} (hki : k < i) (hk : ids[k]? = some id)
      (hi : ids[i]? = some id) : Repeated ids i
  | renamed {k i : ℕ} {id : CodeUnits} (hki : k < i) (hrepeated : Repeated ids k)
      (hk : ids[k]? = some id) (hi : ids[i]? = some (suffixed id k)) : Repeated ids i

open Classical in
/-- The name that the button at an index gets. -/
noncomputable def uniqueId (ids : List CodeUnits) (i : ℕ) (id : CodeUnits) : CodeUnits :=
  if Repeated ids i then suffixed id i else id

/-- The names seen in front of an index. -/
def Seen (ids : List CodeUnits) (i : ℕ) (id : CodeUnits) : Prop :=
  ∃ k < i, ∃ name, ids[k]? = some name ∧ (id = name ∨ Repeated ids k ∧ id = suffixed name k)

variable {ids : List CodeUnits} {i k : ℕ} {id : CodeUnits}

theorem repeated_iff_seen (hi : ids[i]? = some id) : Repeated ids i ↔ Seen ids i id := by
  constructor
  · intro h
    cases h with
    | same hki hk hi' =>
      obtain rfl := some.inj (hi.symm.trans hi')
      exact ⟨_, hki, _, hk, Or.inl rfl⟩
    | renamed hki hrepeated hk hi' =>
      obtain rfl := some.inj (hi.symm.trans hi')
      exact ⟨_, hki, _, hk, Or.inr ⟨hrepeated, rfl⟩⟩
  · rintro ⟨k, hki, name, hk, rfl | ⟨hrepeated, rfl⟩⟩
    · exact .same hki hk hi
    · exact .renamed hki hrepeated hk hi

theorem seen_zero : ¬ Seen ids 0 id := by
  rintro ⟨k, hk, -⟩
  exact absurd hk (not_lt_zero k)

/-- One button further. -/
theorem seen_succ {name : CodeUnits} (hi : ids[i]? = some name) :
    Seen ids (i + 1) id ↔ id = uniqueId ids i name ∨ id = name ∨ Seen ids i id := by
  constructor
  · rintro ⟨k, hk, name', hname', hid⟩
    rcases Nat.lt_succ_iff_lt_or_eq.1 hk with hlt | rfl
    · exact Or.inr (Or.inr ⟨k, hlt, name', hname', hid⟩)
    · obtain rfl := some.inj (hi.symm.trans hname')
      rcases hid with rfl | ⟨hrepeated, rfl⟩
      · exact Or.inr (Or.inl rfl)
      · exact Or.inl (if_pos hrepeated).symm
  · rintro (rfl | rfl | ⟨k, hk, name', hname', hid⟩)
    · rw [uniqueId]
      split
      · rename_i hrepeated
        exact ⟨i, lt_succ_self i, name, hi, Or.inr ⟨hrepeated, rfl⟩⟩
      · exact ⟨i, lt_succ_self i, name, hi, Or.inl rfl⟩
    · exact ⟨i, lt_succ_self i, _, hi, Or.inl rfl⟩
    · exact ⟨k, lt_succ_of_lt hk, name', hname', hid⟩

/-- **The names of the loop**: a button's name depends on the names in front of it alone. -/
theorem importFrom_eq_mapIdx (defaultSize : F) {items : List (HudKey F)}
    {seenIds : List CodeUnits} (hids : ids.drop i = items.map HudKey.id)
    (hseen : ∀ id, id ∈ seenIds ↔ Seen ids i id) :
    importFrom defaultSize i seenIds items =
      items.mapIdx fun j item => imported defaultSize (uniqueId ids (i + j) item.id) item := by
  induction items generalizing i seenIds with
  | nil => rfl
  | cons item items ih =>
    have hi : ids[i]? = some item.id := by
      rw [← head?_drop, hids]
      rfl
    have hunique : (if item.id ∈ seenIds then suffixed item.id i else item.id) =
        uniqueId ids i item.id := by
      rw [uniqueId]
      have hiff : item.id ∈ seenIds ↔ Repeated ids i :=
        (hseen item.id).trans (repeated_iff_seen hi).symm
      by_cases h : item.id ∈ seenIds
      · rw [if_pos h, if_pos (hiff.1 h)]
      · rw [if_neg h, if_neg (mt hiff.2 h)]
    have hdrop : ids.drop (i + 1) = items.map HudKey.id := by
      rw [← tail_drop, hids]
      rfl
    rw [importFrom, mapIdx_cons, hunique]
    congr 1
    rw [ih hdrop]
    · congr 1
      funext j item
      rw [add_right_comm, add_assoc i j 1]
    · intro id
      rw [seen_succ hi, mem_cons, mem_cons, hseen]

theorem normalizeImportedKeys_eq_mapIdx (items : List (HudKey F)) (defaultSize : F) :
    normalizeImportedKeys items defaultSize =
      (taken items).mapIdx fun i item =>
        imported defaultSize (uniqueId ((taken items).map HudKey.id) i item.id) item := by
  rw [normalizeImportedKeys, importFrom_eq_mapIdx defaultSize drop_zero]
  · congr 1
    funext i item
    rw [zero_add]
  · intro id
    exact ⟨fun h => absurd h not_mem_nil, fun h => absurd h seen_zero⟩

/-- A name behind which a position stands gives both away. -/
theorem suffixed_inj {id id' : CodeUnits} {i k : ℕ} (h : suffixed id i = suffixed id' k) :
    id = id' ∧ i = k := by
  have hnot : ∀ n : ℕ, (0x5F : UInt16) ∉ decimal n := by
    intro n hmem
    exact absurd (mem_decimal hmem).2.1 (by decide)
  obtain ⟨hid, hdecimal⟩ := append_cons_inj_right (hnot i) (hnot k) h
  exact ⟨hid, decimal_injective hdecimal⟩

/-- A name that gets a position begins with `aux_` only if it began so before, or if it is
`aux`. -/
theorem aux_prefix_suffixed_iff (id : CodeUnits) (i : ℕ) :
    lit "aux_" <+: suffixed id i ↔ lit "aux_" <+: id ∨ id = lit "aux" := by
  have haux : lit "aux_" = [0x61, 0x75, 0x78, 0x5F] := rfl
  have haux' : lit "aux" = [0x61, 0x75, 0x78] := rfl
  rw [haux, haux', suffixed]
  rcases id with _ | ⟨a, _ | ⟨b, _ | ⟨c, _ | ⟨d, id⟩⟩⟩⟩
  · simp
  · simp
  · simp
  · simp [eq_comm]
  · simp

theorem isBlank_suffixed (id : CodeUnits) (i : ℕ) : isBlank (suffixed id i) = false := by
  rw [isBlank, suffixed, all_append, all_cons]
  have hunderscore : isWhitespace 0x5F = false := by decide
  rw [hunderscore, Bool.false_and, Bool.and_false]

theorem not_repeated_of_nodup (hnodup : ids.Nodup) : ¬ Repeated ids i := by
  intro h
  induction h with
  | same hki hk hi =>
    obtain ⟨hlt, -⟩ := List.getElem?_eq_some_iff.1 hi
    exact nodup_iff_getElem?_ne_getElem?.1 hnodup _ _ hki hlt (hk.trans hi.symm)
  | renamed hki hrepeated hk hi ih => exact ih

/-- Who has a name that was given to a later button has it before that. -/
theorem exists_uniqueId_eq (hki : k < i) (hk : ids[k]? = some (suffixed id i)) :
    ∃ j < i, ∃ name, ids[j]? = some name ∧ uniqueId ids j name = suffixed id i := by
  induction k using Nat.strong_induction_on with
  | _ k ih =>
    by_cases hrepeated : Repeated ids k
    · cases hrepeated with
      | same hjk hj hk' =>
        obtain rfl := some.inj (hk.symm.trans hk')
        exact ih _ hjk (hjk.trans hki) hj
      | renamed hjk hj hname hk' =>
        obtain ⟨-, rfl⟩ := suffixed_inj (some.inj (hk.symm.trans hk'))
        exact absurd (hjk.trans hki) (lt_irrefl _)
    · exact ⟨k, hki, _, hk, if_neg hrepeated⟩

/-- **The names are distinct exactly when no new one is in front of its button.** -/
theorem nodup_uniqueIds_iff :
    (ids.mapIdx (uniqueId ids)).Nodup ↔
      ∀ i id, Repeated ids i → ids[i]? = some id → ∀ k < i, ids[k]? ≠ some (suffixed id i) := by
  rw [nodup_iff_getElem?_ne_getElem?]
  constructor
  · intro hnodup i id hrepeated hi k hki hk
    obtain ⟨j, hji, name, hj, hname⟩ := exists_uniqueId_eq hki hk
    obtain ⟨hlt, -⟩ := List.getElem?_eq_some_iff.1 hi
    apply hnodup j i hji (by rwa [length_mapIdx])
    rw [getElem?_mapIdx, getElem?_mapIdx, hj, hi, map_some, map_some, hname,
      uniqueId, if_pos hrepeated]
  · intro h k i hki hi heq
    rw [length_mapIdx] at hi
    have hk : k < ids.length := hki.trans hi
    rw [getElem?_mapIdx, getElem?_mapIdx, getElem?_eq_getElem hi,
      getElem?_eq_getElem hk, map_some, map_some, some.injEq] at heq
    have hiGet := getElem?_eq_getElem hi
    have hkGet := getElem?_eq_getElem hk
    by_cases hrepeated : Repeated ids i
    · rw [uniqueId, uniqueId, if_pos hrepeated] at heq
      split at heq
      · exact absurd (suffixed_inj heq).2 (Nat.ne_of_lt hki)
      · exact h i _ hrepeated hiGet k hki (hkGet.trans (congrArg some heq))
    · apply hrepeated
      apply (repeated_iff_seen hiGet).2
      rw [uniqueId, uniqueId, if_neg hrepeated] at heq
      split at heq
      · rename_i hk'
        exact ⟨k, hki, _, hkGet, Or.inr ⟨hk', heq.symm⟩⟩
      · exact ⟨k, hki, _, hkGet, Or.inl heq.symm⟩

/-! ## When an import is well formed -/

/-- No button that is taken over gets a name that an earlier one has or that is sorted out,
and no number that is used is none. -/
structure Importable (items : List (HudKey F)) (defaultSize : F) : Prop where
  names : ∀ i id, Repeated ((taken items).map HudKey.id) i →
    ((taken items).map HudKey.id)[i]? = some id →
      id ≠ lit "aux" ∧ ∀ k < i, ((taken items).map HudKey.id)[k]? ≠ some (suffixed id i)
  numbers : ∀ item ∈ taken items, value item.x ≠ none ∧ value item.y ≠ none ∧
    (value item.size ≠ none ∨ value defaultSize ≠ none)

theorem size_imported_inRange_iff (defaultSize : F) (name : CodeUnits) (item : HudKey F) :
    InRange minSize maxSize (imported defaultSize name item).size ↔
      value item.size ≠ none ∨ value defaultSize ≠ none := by
  have hsize : InRange minSize maxSize (coerceIn item.size (whole minSize) (whole maxSize)) ↔
      value item.size ≠ none := inRange_coerceIn_iff (by decide) (by decide)
  have hdefault : InRange minSize maxSize (coerceIn defaultSize (whole minSize) (whole maxSize)) ↔
      value defaultSize ≠ none := inRange_coerceIn_iff (by decide) (by decide)
  rw [imported]
  by_cases hvalue : value item.size = none
  · have hless : less (whole 0) (coerceIn item.size (whole minSize) (whole maxSize)) = false := by
      rw [ComparedFloat.coerceIn, less_of_value_eq_none (Or.inl hvalue),
        less_of_value_eq_none (Or.inr hvalue)]
      exact less_of_value_eq_none (Or.inr hvalue)
    simp only [hless, hvalue]
    rw [if_neg (by decide), hdefault]
    exact ⟨Or.inr, fun h => h.resolve_left (fun h => h rfl)⟩
  · have hrange := hsize.2 hvalue
    simp only [less_zero_of_inRange hrange (by decide)]
    exact ⟨fun _ => Or.inl hvalue, fun _ => hrange⟩

theorem imported_of_isValid {key : HudKey F} (h : key.IsValid) (defaultSize : F) :
    imported defaultSize key.id key = key := by
  have hsize := coerceIn_of_inRange (by decide) (by decide) h.size
  have hx : coerceIn key.x (whole 0) (whole 1) = key.x :=
    coerceIn_of_inRange (by decide) (by decide) h.x
  have hy : coerceIn key.y (whole 0) (whole 1) = key.y :=
    coerceIn_of_inRange (by decide) (by decide) h.y
  rw [imported, hsize, hx, hy, less_zero_of_inRange h.size (by decide), if_pos rfl, validAction,
    if_pos h.action]

theorem isImportable_of_isValid {key : HudKey F} (h : key.IsValid) : isImportable key = true := by
  rw [isImportable, decide_eq_false h.notKeyboard, h.notBlank, decide_eq_false h.notAux]
  rfl

/-- **A well-formed layout is imported as it is.** -/
theorem normalizeImportedKeys_of_isValid {layout : List (HudKey F)}
    (hfew : layout.length ≤ maxKeys) (hdistinct : (layout.map HudKey.id).Nodup)
    (hvalid : ∀ key ∈ layout, key.IsValid) (defaultSize : F) :
    normalizeImportedKeys layout defaultSize = layout := by
  have htaken : taken layout = layout := by
    rw [taken, filter_eq_self.2 fun key hkey => isImportable_of_isValid (hvalid key hkey)]
    exact take_of_length_le hfew
  rw [normalizeImportedKeys_eq_mapIdx, htaken]
  apply ext_getElem (length_mapIdx)
  intro i hi hi'
  have hmem := getElem_mem hi'
  rw [getElem_mapIdx, uniqueId, if_neg (not_repeated_of_nodup hdistinct)]
  exact imported_of_isValid (hvalid _ hmem) defaultSize

theorem forall₂_mapIdx {α β : Type} {R : α → β → Prop} {f : ℕ → α → β}
    (h : ∀ i a, R a (f i a)) (l : List α) : List.Forall₂ R l (l.mapIdx f) := by
  induction l generalizing f with
  | nil => exact .nil
  | cons a l ih =>
    rw [mapIdx_cons]
    exact .cons (h 0 a) (ih fun i a => h (i + 1) a)

theorem map_id_normalizeImportedKeys (items : List (HudKey F)) (defaultSize : F) :
    (normalizeImportedKeys items defaultSize).map HudKey.id =
      ((taken items).map HudKey.id).mapIdx (uniqueId ((taken items).map HudKey.id)) := by
  rw [normalizeImportedKeys_eq_mapIdx]
  apply ext_getElem
  · simp
  · intro i hi hi'
    simp [imported]

/-- What a button that is taken over comes out as. -/
theorem isValid_imported_iff {items : List (HudKey F)} {item : HudKey F}
    (hitem : item ∈ taken items) (defaultSize : F) (i : ℕ) :
    (imported defaultSize (uniqueId ids i item.id) item).IsValid ↔
      (Repeated ids i → item.id ≠ lit "aux") ∧ value item.x ≠ none ∧ value item.y ≠ none ∧
        (value item.size ≠ none ∨ value defaultSize ≠ none) := by
  have himportable : isImportable item = true :=
    of_mem_filter (mem_of_mem_take hitem)
  rw [isImportable, Bool.not_eq_true', Bool.or_eq_false_iff, Bool.or_eq_false_iff,
    decide_eq_false_iff_not, decide_eq_false_iff_not] at himportable
  obtain ⟨⟨hkind, haux⟩, hblank⟩ := himportable
  have hx : InRange 0 1 (imported defaultSize (uniqueId ids i item.id) item).x ↔
      value item.x ≠ none := inRange_coerceIn_iff (by decide) (by decide)
  have hy : InRange 0 1 (imported defaultSize (uniqueId ids i item.id) item).y ↔
      value item.y ≠ none := inRange_coerceIn_iff (by decide) (by decide)
  have hsize := size_imported_inRange_iff defaultSize (uniqueId ids i item.id) item
  have hname : ¬ lit "aux_" <+: uniqueId ids i item.id ↔
      (Repeated ids i → item.id ≠ lit "aux") := by
    rw [uniqueId]
    split
    · rename_i hrepeated
      rw [aux_prefix_suffixed_iff]
      exact ⟨fun h _ hid => h (Or.inr hid), fun h hor => hor.elim haux (h hrepeated)⟩
    · rename_i hrepeated
      exact ⟨fun _ h => absurd h hrepeated, fun _ => haux⟩
  constructor
  · intro h
    exact ⟨hname.1 h.notAux, hx.1 h.x, hy.1 h.y, hsize.1 h.size⟩
  · rintro ⟨hid, hvx, hvy, hvsize⟩
    refine ⟨?_, hname.2 hid, hkind, validAction_mem _ _, hx.2 hvx, hy.2 hvy, hsize.2 hvsize⟩
    change isBlank (uniqueId ids i item.id) = false
    rw [uniqueId]
    split
    · exact isBlank_suffixed _ _
    · exact hblank

/-- **An imported layout is well formed exactly when no new name meets an old one or is one
that is sorted out, and every number used is a number.** -/
theorem normalizeImportedKeys_wellImported_iff (items : List (HudKey F)) (defaultSize : F) :
    WellImported items defaultSize (normalizeImportedKeys items defaultSize) ↔
      Importable items defaultSize := by
  have hlayout := normalizeImportedKeys_eq_mapIdx items defaultSize
  have hids := map_id_normalizeImportedKeys items defaultSize
  have hvalid : (∀ key ∈ normalizeImportedKeys items defaultSize, key.IsValid) ↔
      ∀ i (hi : i < (taken items).length),
        (Repeated ((taken items).map HudKey.id) i → (taken items)[i].id ≠ lit "aux") ∧
        value (taken items)[i].x ≠ none ∧ value (taken items)[i].y ≠ none ∧
          (value (taken items)[i].size ≠ none ∨ value defaultSize ≠ none) := by
    rw [hlayout]
    constructor
    · intro h i hi
      exact (isValid_imported_iff (getElem_mem hi) defaultSize i).1
        (h _ (mem_mapIdx.2 ⟨i, hi, rfl⟩))
    · intro h key hkey
      obtain ⟨i, hi, rfl⟩ := mem_mapIdx.1 hkey
      exact (isValid_imported_iff (getElem_mem hi) defaultSize i).2 (h i hi)
  constructor
  · intro h
    have hdistinct := h.distinct
    rw [hids, nodup_uniqueIds_iff] at hdistinct
    refine ⟨fun i id hrepeated hi => ⟨?_, hdistinct i id hrepeated hi⟩, fun item hitem => ?_⟩
    · rw [getElem?_map] at hi
      obtain ⟨item, hitem, rfl⟩ := map_eq_some_iff.1 hi
      obtain ⟨hlt, rfl⟩ := List.getElem?_eq_some_iff.1 hitem
      exact (hvalid.1 h.valid i hlt).1 hrepeated
    · obtain ⟨i, hi, rfl⟩ := getElem_of_mem hitem
      exact (hvalid.1 h.valid i hi).2
  · intro h
    have hfew : (normalizeImportedKeys items defaultSize).length ≤ maxKeys := by
      rw [hlayout, length_mapIdx]
      exact List.length_take_le _ _
    have hdistinct : ((normalizeImportedKeys items defaultSize).map HudKey.id).Nodup := by
      rw [hids, nodup_uniqueIds_iff]
      exact fun i id hrepeated hi => (h.names i id hrepeated hi).2
    have hall : ∀ key ∈ normalizeImportedKeys items defaultSize, key.IsValid := by
      apply hvalid.2
      intro i hi
      refine ⟨fun hrepeated => ?_, h.numbers _ (getElem_mem hi)⟩
      apply (h.names i _ hrepeated ?_).1
      rw [getElem?_map, getElem?_eq_getElem hi]
      rfl
    refine ⟨hfew, hdistinct, hall, ⟨taken items, ?_, ?_⟩, ?_⟩
    · exact (take_sublist _ _).trans filter_sublist
    · rw [hlayout]
      refine forall₂_mapIdx ?_ _
      intro i item
      rfl
    · exact normalizeImportedKeys_of_isValid hfew hdistinct hall defaultSize

end HudKey

/-- Rational numbers in the place of floats. -/
@[reducible] def exactFloat : ComparedFloat ℚ where
  toFloatNumber := CloudSync.exactNumber
  value q := some (ComparedFloat.extended q)
  value_eq_extended_iff q r := by
    constructor
    · intro h
      exact congrArg some (WithTop.coe_inj.1 (WithBot.coe_inj.1 (some.inj h)))
    · intro h
      exact congrArg (fun q => some (ComparedFloat.extended q)) (some.inj h)
  toNumber_ofNumber _ _ := rfl

namespace HudKey

/-- A mouse button with a name. -/
def mouseKey (id : String) : HudKey ℚ where
  id := lit id
  kind := .MOUSE_LEFT
  label := lit "Kiri"
  x := 0
  y := 0
  size := 46

/-- **Two buttons of one name, and a third that has the name the second one gets; and a name
that is sorted out when it is imported again.** -/
theorem normalizeImportedKeys_meets :
    let _ : ComparedFloat ℚ := exactFloat
    ¬ WellImported [mouseKey "a_2", mouseKey "a", mouseKey "a"] 46
        (normalizeImportedKeys [mouseKey "a_2", mouseKey "a", mouseKey "a"] 46) ∧
      ¬ WellImported [mouseKey "aux", mouseKey "aux"] 46
        (normalizeImportedKeys [mouseKey "aux", mouseKey "aux"] 46) := by
  intro _
  constructor
  · intro h
    have hdistinct := h.distinct
    revert hdistinct
    decide
  · intro h
    have hvalid := h.valid
    have hnames : (normalizeImportedKeys [mouseKey "aux", mouseKey "aux"] 46).map HudKey.id =
        [lit "aux", lit "aux_1"] := by decide
    have hmem : lit "aux_1" ∈ [lit "aux", lit "aux_1"] := by decide
    rw [← hnames] at hmem
    obtain ⟨key, hkey, hid⟩ := mem_map.1 hmem
    apply (hvalid key hkey).notAux
    rw [hid]
    decide

end HudKey
