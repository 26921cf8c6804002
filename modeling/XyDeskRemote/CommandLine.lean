/-
# The command line

`CommandLineParseArgumentsA` of winpr reads an argument vector against a table of options:
an argument is a sigil and a keyword, with a value behind a colon, and every keyword has to
be one of the table, with or without a value as its flags ask for.  One argument that is
not fails the whole vector.

The flags are the ones of the Windows style: a slash, a plus or a minus in front, a colon
between the keyword and its value, no unknown keywords.
-/
import XyDeskRemote.GatewayOptions

open List

namespace CommandLine

open WorkerText (lit)

/-! ## The table -/

/-- The flags of an option. -/
inductive Flag where
  | valueFlag
  | valueRequired
  | valueOptional
  | valueBool
  | print
  | printHelp
  | printVersion
  | printBuildconfig
  deriving DecidableEq

/-- What an option is set to: the text of the argument, `(LPSTR)1`, `BoolValueTrue` or
`BoolValueFalse`. -/
inductive Value where
  | text (value : CodeUnits)
  | one
  | bool (enable : Bool)
  deriving DecidableEq

/-- `COMMAND_LINE_ARGUMENT_A`; `present` is `COMMAND_LINE_ARGUMENT_PRESENT`, and there is a
value exactly with `COMMAND_LINE_VALUE_PRESENT`. -/
structure CommandLineArgument where
  name : String
  flags : List Flag
  aliasName : Option String := none
  present : Bool := false
  value : Option Value := none
  deriving DecidableEq

/-- How the parser ends. -/
inductive Status where
  | error
  | errorNoKeyword
  | errorUnexpectedValue
  | errorMissingValue
  | print
  | printHelp
  | printVersion
  | printBuildconfig
  deriving DecidableEq

/-! ## The parser -/

/-- What comes before the first colon and what comes behind it. -/
def splitKeyword (keyword : CodeUnits) : CodeUnits × Option CodeUnits :=
  match keyword.idxOf? 0x3A with
  | some i => (keyword.take i, some (keyword.drop (i + 1)))
  | none => (keyword, none)

/-- The status of an option that only prints something. -/
def printStatus (flags : List Flag) : Option Status :=
  if .print ∈ flags then some .print
  else if .printHelp ∈ flags then some .printHelp
  else if .printVersion ∈ flags then some .printVersion
  else if .printBuildconfig ∈ flags then some .printBuildconfig
  else none

namespace CommandLineArgument

/-- The keyword is the name of the option or its alias. -/
def matchesKeyword (cur : CommandLineArgument) (keyword : CodeUnits) : Bool :=
  lit cur.name = keyword || cur.aliasName.any fun name => lit name = keyword

/-- What the option is set to by an argument that its flags admit. -/
def set (cur : CommandLineArgument) (sigil : UInt16) (value : Option CodeUnits) :
    CommandLineArgument :=
  match value with
  | some text => { cur with present := true, value := some (.text text) }
  | none =>
    if .valueFlag ∈ cur.flags then { cur with present := true, value := some .one }
    else if .valueBool ∈ cur.flags then
      { cur with present := true, value := some (.bool (sigil ≠ 0x2D)) }
    else { cur with present := true }

/-- The body of the loop over the options, for one that matches. -/
def meet (postFilter : String → Option Value → Bool) (cur : CommandLineArgument)
    (sigil : UInt16) (value : Option CodeUnits) : Except Status CommandLineArgument :=
  if value.isSome && .valueFlag ∈ cur.flags then .error .errorUnexpectedValue
  else if value.isNone && .valueRequired ∈ cur.flags then .error .errorMissingValue
  else if value.isSome && !(.valueOptional ∈ cur.flags || .valueRequired ∈ cur.flags) then
    .error .errorUnexpectedValue
  else
    let cur := cur.set sigil value
    if !postFilter cur.name cur.value then .error .error
    else
      match printStatus cur.flags with
      | some status => .error status
      | none => .ok cur

end CommandLineArgument

/-- One argument. -/
def parseArgument (postFilter : String → Option Value → Bool)
    (options : List CommandLineArgument) (argument : CodeUnits) :
    Except Status (List CommandLineArgument) :=
  match argument with
  | [] => .error .error
  | sigil :: keyword =>
    if sigil = 0x2F || sigil = 0x2B || sigil = 0x2D then
      if keyword = [] then .error .errorNoKeyword
      else do
        let (keyword, value) := splitKeyword keyword
        let next ← options.mapM fun cur =>
          if cur.matchesKeyword keyword then cur.meet postFilter sigil value else .ok cur
        if options.any (·.matchesKeyword keyword) then .ok next else .error .errorNoKeyword
    else .error .error

/-- `option_ends_with`. -/
def optionEndsWith (str : CodeUnits) (ext : String) : Bool :=
  (lit ext).length ≤ str.length &&
    optionEquals ext (str.drop (str.length - (lit ext).length))

/-- `freerdp_client_command_line_pre_filter`: the first argument may be a file. -/
def isFile (argument : CodeUnits) : Bool :=
  (4 < argument.length && (optionEndsWith argument ".rdp" || optionEndsWith argument ".rdpw")) ||
    (13 < argument.length && optionEndsWith argument ".msrcIncident")

/-- `CommandLineParseArgumentsA`: the options after it. -/
def commandLineParseArgumentsA (postFilter : String → Option Value → Bool)
    (options : List CommandLineArgument) (argv : List CodeUnits) :
    Except Status (List CommandLineArgument) :=
  match argv with
  | [] => .ok options
  | [_] => .error .printHelp
  | _ :: first :: rest => do
    let options ← if isFile first then .ok options else parseArgument postFilter options first
    rest.foldlM (parseArgument postFilter) options

/-- `CommandLineFindArgumentA(options, name)->Value`. -/
def findValue (options : List CommandLineArgument) (name : String) : Option Value :=
  (options.find? fun cur => cur.matchesKeyword (lit name)).bind (·.value)

/-! ## Arguments -/

/-- An argument in its parts. -/
structure Argument where
  sigil : UInt16
  keyword : CodeUnits
  value : Option CodeUnits

namespace Argument

/-- The text of an argument. -/
def text (a : Argument) : CodeUnits :=
  a.sigil :: (a.keyword ++ a.value.elim [] fun value => 0x3A :: value)

/-- The parts can be told from the text. -/
structure WellFormed (a : Argument) : Prop where
  sigil : (a.sigil = 0x2F || a.sigil = 0x2B || a.sigil = 0x2D) = true
  keyword : a.keyword ≠ []
  colon : 0x3A ∉ a.keyword

/-- What the argument does to an option. -/
def apply (a : Argument) (cur : CommandLineArgument) : CommandLineArgument :=
  if cur.matchesKeyword a.keyword then cur.set a.sigil a.value else cur

end Argument

/-- The flags of an option admit a value, or none. -/
def CommandLineArgument.admits (cur : CommandLineArgument) (value : Option CodeUnits) : Bool :=
  (if value.isSome then
    .valueFlag ∉ cur.flags && (.valueOptional ∈ cur.flags || .valueRequired ∈ cur.flags)
  else .valueRequired ∉ cur.flags) && printStatus cur.flags = none

/-- The keyword is one of the table, and what it names admits the value. -/
structure Argument.AdmittedBy (options : List CommandLineArgument) (a : Argument) : Prop where
  found : ∃ cur ∈ options, cur.matchesKeyword a.keyword = true
  admits : ∀ cur ∈ options, cur.matchesKeyword a.keyword = true → cur.admits a.value = true

/-- The filter has nothing against what the argument sets, whatever was set before. -/
def Argument.Passes (postFilter : String → Option Value → Bool)
    (options : List CommandLineArgument) (a : Argument) : Prop :=
  ∀ cur ∈ options, cur.matchesKeyword a.keyword = true →
    ∀ old, postFilter cur.name ({ cur with value := old }.set a.sigil a.value).value = true

section Options

variable {cur next : CommandLineArgument} {keyword : CodeUnits} {sigil : UInt16}
  {value : Option CodeUnits} {a : Argument} {postFilter : String → Option Value → Bool}

theorem set_same (cur : CommandLineArgument) (sigil : UInt16) (value : Option CodeUnits) :
    (cur.set sigil value).name = cur.name ∧ (cur.set sigil value).flags = cur.flags ∧
      (cur.set sigil value).aliasName = cur.aliasName := by
  cases value with
  | some text => exact ⟨rfl, rfl, rfl⟩
  | none =>
    rw [CommandLineArgument.set]
    split
    · exact ⟨rfl, rfl, rfl⟩
    · split <;> exact ⟨rfl, rfl, rfl⟩

theorem apply_same (a : Argument) (cur : CommandLineArgument) :
    (a.apply cur).name = cur.name ∧ (a.apply cur).flags = cur.flags ∧
      (a.apply cur).aliasName = cur.aliasName := by
  rw [Argument.apply]
  split
  · exact set_same cur a.sigil a.value
  · exact ⟨rfl, rfl, rfl⟩

theorem matchesKeyword_apply :
    (a.apply cur).matchesKeyword keyword = cur.matchesKeyword keyword := by
  obtain ⟨hname, -, halias⟩ := apply_same a cur
  rw [CommandLineArgument.matchesKeyword, hname, halias]
  rfl

theorem admits_apply : (a.apply cur).admits value = cur.admits value := by
  obtain ⟨-, hflags, -⟩ := apply_same a cur
  rw [CommandLineArgument.admits, hflags]
  rfl

theorem meet_eq (hadmits : cur.admits value = true)
    (hfilter : postFilter cur.name (cur.set sigil value).value = true) :
    cur.meet postFilter sigil value = .ok (cur.set sigil value) := by
  obtain ⟨hname, hflags, -⟩ := set_same cur sigil value
  rw [CommandLineArgument.admits] at hadmits
  rw [CommandLineArgument.meet]
  cases value with
  | none =>
    obtain ⟨hrequired, hprint⟩ :
        Flag.valueRequired ∉ cur.flags ∧ printStatus cur.flags = none := by
      simpa using hadmits
    simp [hname, hflags, hfilter, hrequired, hprint]
  | some text =>
    obtain ⟨⟨hflag, hvalue⟩, hprint⟩ : (Flag.valueFlag ∉ cur.flags ∧
        (Flag.valueOptional ∈ cur.flags ∨ Flag.valueRequired ∈ cur.flags)) ∧
        printStatus cur.flags = none := by
      simpa using hadmits
    have hvalue' : ¬ (Flag.valueOptional ∉ cur.flags ∧ Flag.valueRequired ∉ cur.flags) := by
      tauto
    simp [hname, hflags, hfilter, hflag, hvalue', hprint]

/-- What is set was admitted. -/
theorem admits_of_meet (h : cur.meet postFilter sigil value = .ok next) :
    cur.admits value = true ∧ next = cur.set sigil value := by
  obtain ⟨hname, hflags, -⟩ := set_same cur sigil value
  rw [CommandLineArgument.meet] at h
  simp only [hname, hflags] at h
  rw [CommandLineArgument.admits]
  split at h
  · cases h
  · split at h
    · cases h
    · split at h
      · cases h
      · split at h
        · cases h
        · split at h
          · cases h
          · cases h
            refine ⟨?_, rfl⟩
            cases value with
            | none => simp_all
            | some text =>
              simp_all
              tauto

end Options

/-! ## One argument -/

section Parse

variable {options next : List CommandLineArgument} {a : Argument}
  {postFilter : String → Option Value → Bool}

theorem splitKeyword_text (h : a.WellFormed) :
    splitKeyword (a.keyword ++ a.value.elim [] fun value => 0x3A :: value) =
      (a.keyword, a.value) := by
  rw [splitKeyword]
  cases a.value with
  | none =>
    rw [Option.elim_none, append_nil, idxOf?_eq_none_iff.2 h.colon]
  | some value =>
    rw [Option.elim_some, KotlinText.indexOf_append_cons h.colon]
    dsimp only
    rw [take_left]
    simp

/-- The text of an argument is read part by part. -/
theorem parseArgument_text (h : a.WellFormed) :
    parseArgument postFilter options a.text =
      (options.mapM fun cur =>
        if cur.matchesKeyword a.keyword then cur.meet postFilter a.sigil a.value
        else .ok cur) >>= fun next =>
          if options.any (·.matchesKeyword a.keyword) then .ok next
          else .error .errorNoKeyword := by
  have hne : ¬ (a.keyword ++ a.value.elim [] fun value => 0x3A :: value) = [] :=
    append_ne_nil_of_left_ne_nil h.keyword _
  rw [Argument.text, parseArgument, if_pos h.sigil, if_neg hne, splitKeyword_text h]

theorem mapM_ok {α β ε : Type} {f : α → Except ε β} {g : α → β} {l : List α}
    (h : ∀ x ∈ l, f x = .ok (g x)) : l.mapM f = .ok (l.map g) := by
  induction l with
  | nil => rfl
  | cons x l ih =>
    rw [mapM_cons, h x mem_cons_self, ih fun y hy => h y (mem_cons_of_mem x hy)]
    rfl

theorem of_mapM_ok {α β ε : Type} {f : α → Except ε β} {l : List α} {l' : List β}
    (h : l.mapM f = .ok l') : ∀ x ∈ l, ∃ y, f x = .ok y := by
  induction l generalizing l' with
  | nil => exact fun x hx => absurd hx not_mem_nil
  | cons x l ih =>
    rw [mapM_cons] at h
    cases hx : f x with
    | error e =>
      rw [hx] at h
      cases h
    | ok y =>
      rw [hx] at h
      cases hrest : l.mapM f with
      | error e =>
        change l.mapM f >>= _ = _ at h
        rw [hrest] at h
        cases h
      | ok ys =>
        intro x' hx'
        rcases mem_cons.1 hx' with rfl | hx'
        · exact ⟨y, hx⟩
        · exact ih hrest x' hx'

/-- **An argument that the table admits is read.** -/
theorem parseArgument_ok (h : a.WellFormed) (hadmitted : a.AdmittedBy options)
    (hpasses : a.Passes postFilter options) :
    parseArgument postFilter options a.text = .ok (options.map a.apply) := by
  have hmap : options.mapM (fun cur =>
      if cur.matchesKeyword a.keyword then cur.meet postFilter a.sigil a.value else .ok cur) =
        .ok (options.map a.apply) := by
    refine mapM_ok fun cur hcur => ?_
    rw [Argument.apply]
    by_cases hmatch : cur.matchesKeyword a.keyword = true
    · rw [if_pos hmatch, if_pos hmatch]
      exact meet_eq (hadmitted.admits cur hcur hmatch) (hpasses cur hcur hmatch cur.value)
    · rw [if_neg hmatch, if_neg hmatch]
  rw [parseArgument_text h, hmap]
  exact if_pos (any_eq_true.2 hadmitted.found)

/-- **An argument that is read is admitted.** -/
theorem admitted_of_parseArgument (h : a.WellFormed)
    (hparse : parseArgument postFilter options a.text = .ok next) :
    a.AdmittedBy options ∧ next = options.map a.apply := by
  rw [parseArgument_text h] at hparse
  cases hmap : options.mapM (fun cur =>
      if cur.matchesKeyword a.keyword then cur.meet postFilter a.sigil a.value else .ok cur) with
  | error e =>
    rw [hmap] at hparse
    cases hparse
  | ok options' =>
    rw [hmap] at hparse
    change (if options.any (·.matchesKeyword a.keyword) then _ else _) = _ at hparse
    have hany : options.any (·.matchesKeyword a.keyword) = true := by
      by_contra hany
      rw [if_neg hany] at hparse
      cases hparse
    rw [if_pos hany] at hparse
    cases hparse
    -- each option that matches was met
    have hmeet : ∀ cur ∈ options, cur.matchesKeyword a.keyword = true →
        ∃ cur', cur.meet postFilter a.sigil a.value = .ok cur' := by
      intro cur hcur hmatch
      obtain ⟨cur', hcur'⟩ := of_mapM_ok hmap cur hcur
      rw [if_pos hmatch] at hcur'
      exact ⟨cur', hcur'⟩
    refine ⟨⟨any_eq_true.1 hany, fun cur hcur hmatch => ?_⟩, ?_⟩
    · obtain ⟨cur', hcur'⟩ := hmeet cur hcur hmatch
      exact (admits_of_meet hcur').1
    · have hmap' : options.mapM (fun cur =>
          if cur.matchesKeyword a.keyword then cur.meet postFilter a.sigil a.value
          else .ok cur) = .ok (options.map a.apply) := by
        refine mapM_ok fun cur hcur => ?_
        rw [Argument.apply]
        by_cases hmatch : cur.matchesKeyword a.keyword = true
        · obtain ⟨cur', hcur'⟩ := hmeet cur hcur hmatch
          rw [if_pos hmatch, if_pos hmatch, hcur', (admits_of_meet hcur').2]
        · rw [if_neg hmatch, if_neg hmatch]
      exact Except.ok.inj (hmap.symm.trans hmap')

end Parse

/-! ## All arguments -/

/-- What all the arguments do to an option. -/
def applyAll (args : List Argument) (cur : CommandLineArgument) : CommandLineArgument :=
  args.foldl (fun cur a => a.apply cur) cur

section Run

variable {options next : List CommandLineArgument} {a b : Argument} {args : List Argument}
  {cur : CommandLineArgument} {postFilter : String → Option Value → Bool} {name : String}

theorem admittedBy_map : b.AdmittedBy (options.map a.apply) ↔ b.AdmittedBy options := by
  constructor
  · rintro ⟨⟨cur', hcur', hmatch⟩, hadmits⟩
    obtain ⟨cur, hcur, rfl⟩ := mem_map.1 hcur'
    rw [matchesKeyword_apply] at hmatch
    refine ⟨⟨cur, hcur, hmatch⟩, fun cur hcur hmatch => ?_⟩
    have h := hadmits (a.apply cur) (mem_map_of_mem hcur)
    rw [matchesKeyword_apply, admits_apply] at h
    exact h hmatch
  · rintro ⟨⟨cur, hcur, hmatch⟩, hadmits⟩
    refine ⟨⟨a.apply cur, mem_map_of_mem hcur, ?_⟩, fun cur' hcur' hmatch => ?_⟩
    · rw [matchesKeyword_apply]
      exact hmatch
    · obtain ⟨cur, hcur, rfl⟩ := mem_map.1 hcur'
      rw [matchesKeyword_apply] at hmatch
      rw [admits_apply]
      exact hadmits cur hcur hmatch

theorem value_set_congr {cur' : CommandLineArgument} {sigil : UInt16}
    {value : Option CodeUnits} (hflags : cur'.flags = cur.flags) (hvalue : cur'.value = cur.value) :
    (cur'.set sigil value).value = (cur.set sigil value).value := by
  cases value with
  | some text => rfl
  | none =>
    rw [CommandLineArgument.set, CommandLineArgument.set]
    simp only [hflags]
    split
    · rfl
    · split
      · rfl
      · exact hvalue

theorem passes_map (h : b.Passes postFilter options) :
    b.Passes postFilter (options.map a.apply) := by
  intro cur' hcur' hmatch old
  obtain ⟨cur, hcur, rfl⟩ := mem_map.1 hcur'
  rw [matchesKeyword_apply] at hmatch
  obtain ⟨hname, hflags, -⟩ := apply_same a cur
  have hvalue : ({ a.apply cur with value := old }.set b.sigil b.value).value =
      ({ cur with value := old }.set b.sigil b.value).value := value_set_congr hflags rfl
  rw [hvalue, hname]
  exact h cur hcur hmatch old

theorem map_applyAll_cons :
    (options.map a.apply).map (applyAll args) = options.map (applyAll (a :: args)) := by
  rw [map_map]
  rfl

/-- **Arguments that the table admits are read**, each into its options. -/
theorem run_ok (hargs : ∀ a ∈ args, a.WellFormed ∧ a.AdmittedBy options ∧
    a.Passes postFilter options) :
    (args.map Argument.text).foldlM (parseArgument postFilter) options =
      .ok (options.map (applyAll args)) := by
  induction args generalizing options with
  | nil =>
    show Except.ok options = .ok (options.map fun cur => cur)
    rw [map_id']
  | cons a args ih =>
    obtain ⟨hform, hadmitted, hpasses⟩ := hargs a mem_cons_self
    rw [map_cons, foldlM_cons, parseArgument_ok hform hadmitted hpasses, ← map_applyAll_cons]
    refine ih fun b hb => ?_
    obtain ⟨hform', hadmitted', hpasses'⟩ := hargs b (mem_cons_of_mem a hb)
    exact ⟨hform', admittedBy_map.2 hadmitted', passes_map hpasses'⟩

/-- **Of the arguments that are read the table admits every one.** -/
theorem admitted_of_run (hargs : ∀ a ∈ args, a.WellFormed)
    (h : (args.map Argument.text).foldlM (parseArgument postFilter) options = .ok next) :
    (∀ a ∈ args, a.AdmittedBy options) ∧ next = options.map (applyAll args) := by
  induction args generalizing options with
  | nil =>
    cases h
    refine ⟨fun a ha => absurd ha not_mem_nil, ?_⟩
    show _ = List.map (fun cur => cur) _
    rw [map_id']
  | cons a args ih =>
    rw [map_cons, foldlM_cons] at h
    cases hparse : parseArgument postFilter options a.text with
    | error e =>
      rw [hparse] at h
      cases h
    | ok options' =>
      rw [hparse] at h
      obtain ⟨hadmitted, rfl⟩ :=
        admitted_of_parseArgument (hargs a mem_cons_self) hparse
      obtain ⟨hrest, hnext⟩ := ih (fun b hb => hargs b (mem_cons_of_mem a hb)) h
      refine ⟨fun b hb => ?_, hnext.trans map_applyAll_cons⟩
      rcases mem_cons.1 hb with rfl | hb
      · exact hadmitted
      · exact admittedBy_map.1 (hrest b hb)

theorem applyAll_eq_filter (args : List Argument) (cur : CommandLineArgument) :
    applyAll args cur =
      (args.filter fun a => cur.matchesKeyword a.keyword).foldl
        (fun cur a => cur.set a.sigil a.value) cur := by
  induction args generalizing cur with
  | nil => rfl
  | cons a args ih =>
    have hmatches : ∀ b : Argument, (a.apply cur).matchesKeyword b.keyword =
        cur.matchesKeyword b.keyword := fun b => matchesKeyword_apply
    have hcons : applyAll (a :: args) cur = applyAll args (a.apply cur) := rfl
    rw [hcons, ih, filter_cons]
    simp only [hmatches]
    rw [Argument.apply]
    by_cases hmatch : cur.matchesKeyword a.keyword = true
    · rw [if_pos hmatch, if_pos hmatch, foldl_cons]
    · rw [if_neg hmatch, if_neg hmatch]

theorem matchesKeyword_applyAll {keyword : CodeUnits} :
    (applyAll args cur).matchesKeyword keyword = cur.matchesKeyword keyword := by
  induction args generalizing cur with
  | nil => rfl
  | cons a args ih =>
    show (applyAll args (a.apply cur)).matchesKeyword keyword = _
    rw [ih, matchesKeyword_apply]

/-- **What an option has in the end** is what the arguments for it have set. -/
theorem findValue_run (hfind : options.find? (·.matchesKeyword (lit name)) = some cur) :
    findValue (options.map (applyAll args)) name =
      ((args.filter fun a => cur.matchesKeyword a.keyword).foldl
        (fun cur a => cur.set a.sigil a.value) cur).value := by
  have hmatches : ((fun cur : CommandLineArgument => cur.matchesKeyword (lit name)) ∘
      applyAll args) = fun cur => cur.matchesKeyword (lit name) :=
    funext fun cur => matchesKeyword_applyAll
  rw [findValue, find?_map, hmatches, hfind, Option.map_some, Option.bind_some, applyAll_eq_filter]

/-- **A vector is accepted exactly when the table admits every argument**; then each option is what
its arguments have set. -/
theorem commandLineParseArgumentsA_iff {program : CodeUnits}
    (hargs : ∀ b ∈ a :: args, b.WellFormed ∧ b.Passes postFilter options)
    (hfile : isFile a.text = false) :
    commandLineParseArgumentsA postFilter options (program :: (a :: args).map Argument.text) =
        .ok next ↔
      (∀ b ∈ a :: args, b.AdmittedBy options) ∧ next = options.map (applyAll (a :: args)) := by
  have hrun : commandLineParseArgumentsA postFilter options
      (program :: (a :: args).map Argument.text) =
        ((a :: args).map Argument.text).foldlM (parseArgument postFilter) options := by
    rw [map_cons, commandLineParseArgumentsA, hfile, foldlM_cons]
    rfl
  rw [hrun]
  constructor
  · exact admitted_of_run fun b hb => (hargs b hb).1
  · rintro ⟨hadmitted, rfl⟩
    exact run_ok fun b hb => ⟨(hargs b hb).1, hadmitted b hb, (hargs b hb).2⟩

/-- A user. -/
theorem commandLineParseArgumentsA_user :
    commandLineParseArgumentsA (fun _ _ => true) [{ name := "u", flags := [.valueRequired] }]
        (lit "app" :: [⟨0x2F, lit "u", some (lit "me")⟩].map Argument.text) =
      .ok [{ name := "u", flags := [.valueRequired], present := true,
             value := some (.text (lit "me")) }] := by
  refine (commandLineParseArgumentsA_iff ?_ rfl).2 ⟨?_, rfl⟩
  · intro b hb
    obtain rfl := mem_singleton.1 hb
    exact ⟨⟨rfl, by decide, by decide⟩, fun _ _ _ _ => rfl⟩
  · intro b hb
    obtain rfl := mem_singleton.1 hb
    exact ⟨⟨_, mem_singleton_self _, rfl⟩, by decide⟩

end Run

end CommandLine
