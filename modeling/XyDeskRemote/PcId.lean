/-
# PC ids

A PC id is an IPv4 address as a number of ten digits, written `XXX-XXX-XXXX`.  The client
writes one in two places and reads it back out of the address field of a connection,
where it may also be a global id, an id in hexadecimal digits, a host name or an IP
address; the host agent writes the id it advertises.

The texts of the client are code units, those of the host agent are bytes up to the
terminating zero.
-/
import XyDeskRemote.KotlinText

open WorkerText (lit)
open KotlinText Numeral List UInt8

/-! ## Addresses -/

/-- An IPv4 address. -/
structure Ipv4 where
  a : UInt8
  b : UInt8
  c : UInt8
  d : UInt8
  deriving DecidableEq

/-- `"${..}.${..}.${..}.${..}"`. -/
def dotted (octets : List Nat) : CodeUnits := [0x2E].intercalate (octets.map decimal)

/-- The octets of an address. -/
def Ipv4.octets (x : Ipv4) : List Nat := [x.a.toNat, x.b.toNat, x.c.toNat, x.d.toNat]

/-- The address in dotted decimal notation. -/
def Ipv4.text (x : Ipv4) : CodeUnits := dotted x.octets

/-- Parsed host and RDP port. -/
structure RdpEndpoint where
  host : CodeUnits
  port : Int
  notBlank : isBlank host = false
  inRange : 1 ≤ port ∧ port ≤ 65535

/-! ## Writing an id -/

/-- Ten digits in groups of three, three and four. -/
def hyphenate {α : Type*} (dash : α) (digits : List α) : List α :=
  digits.take 3 ++ dash :: ((digits.drop 3).take 3 ++ dash :: (digits.drop 6).take 4)

/-- `encodeIpv4ToPcId`, of which the client has two copies. -/
def pcIdOf (ip : CodeUnits) : Option CodeUnits :=
  match ((trim ip).splitOn 0x2E).mapM toIntOrNull with
  | some [a, b, c, d] =>
    if [a, b, c, d].any fun n => n < 0 || 255 < n then none
    else
      let num := ((a.toNat &&& 0xFF) <<< 24) ||| ((b.toNat &&& 0xFF) <<< 16) |||
        ((c.toNat &&& 0xFF) <<< 8) ||| (d.toNat &&& 0xFF)
      some (hyphenate 0x2D ((decimal num).leftpad 10 0x30))
  | _ => none

/-- The copy of `RdpEndpoint.kt`. -/
def encodeIpv4ToPcId (ip : CodeUnits) : Option CodeUnits := pcIdOf ip

/-- The copy of `LanScanner.kt`. -/
def LanScanner.encodeIpv4ToPcId (ip : CodeUnits) : Option CodeUnits := pcIdOf ip

namespace HostAgent

/-- `isspace` in the C locale. -/
def isSpace (c : UInt8) : Bool := c = 0x20 || (0x09 ≤ c && c ≤ 0x0D)

/-- `isdigit`. -/
def isDigit (c : UInt8) : Bool := 0x30 ≤ c && c ≤ 0x39

/-- The byte of a digit. -/
def digitByte (d : Nat) : UInt8 := UInt8.ofNat (0x30 + d)

/-- `%u` of `sscanf`, and what it leaves: white space, a sign, and digits, of which there
must be some.  (C leaves open what becomes of a number of more than 32 bits.) -/
def scanUnsigned (s : List UInt8) : Option (UInt32 × List UInt8) :=
  let s := s.dropWhile isSpace
  let negative := s.head? = some 0x2D
  let s := if negative || s.head? = some 0x2B then s.tail else s
  let digits := s.takeWhile isDigit
  let n := UInt32.ofNat (value 10 (digits.map fun c => c.toNat - 0x30))
  if digits = [] then none else some (if negative then -n else n, s.dropWhile isDigit)

/-- A dot and a number. -/
def scanDotUnsigned (s : List UInt8) : Option (UInt32 × List UInt8) :=
  if s.head? = some 0x2E then scanUnsigned s.tail else none

/-- `sscanf(ipv4, "%u.%u.%u.%u", ..) == 4`. -/
def scanDotted (ipv4 : List UInt8) : Option (UInt32 × UInt32 × UInt32 × UInt32) := do
  let (a, rest) ← scanUnsigned ipv4
  let (b, rest) ← scanDotUnsigned rest
  let (c, rest) ← scanDotUnsigned rest
  let (d, _) ← scanDotUnsigned rest
  return (a, b, c, d)

/-- `%u`. -/
def printUnsigned (n : UInt32) : List UInt8 := (digits 10 n.toNat).map digitByte

/-- The id of nothing. -/
def noId : List UInt8 := hyphenate 0x2D (replicate 10 0x30)

/-- `EncodeIpv4ToPcId`: what it writes to `out`, of size `cap`, if it does. -/
def EncodeIpv4ToPcId (ipv4 : List UInt8) (cap : Nat) : Option (List UInt8) :=
  if cap < 16 then none
  else
    match scanDotted ipv4 with
    | none => some (noId.take (cap - 1))
    | some (a, b, c, d) =>
      if a > 255 || b > 255 || c > 255 || d > 255 then some (noId.take (cap - 1))
      else
        let num := ((a &&& 0xFF) <<< 24) ||| ((b &&& 0xFF) <<< 16) |||
          ((c &&& 0xFF) <<< 8) ||| (d &&& 0xFF)
        let digits := (printUnsigned num).leftpad 10 0x30
        some ((hyphenate 0x2D (digits.take 15)).take (cap - 1))

end HostAgent

/-- The address as a C string. -/
def Ipv4.chars (x : Ipv4) : List UInt8 :=
  [0x2E].intercalate (x.octets.map fun n => (digits 10 n).map HostAgent.digitByte)

/-! ## Reading an id -/

/-- `isGlobalPcId`. -/
def isGlobalPcId (up : UpperCase) (input : CodeUnits) : Bool :=
  let compact := up.uppercase (trim input)
  compact.length = 10 && (lit "XY").isPrefixOf compact &&
    (compact.drop 2).all fun u => (0x30 ≤ u && u ≤ 0x39) || (0x41 ≤ u && u ≤ 0x46)

/-- The host and the port of an address, before their checks. -/
def splitRdpEndpoint (value : CodeUnits) (defaultPort : Int) : Option (CodeUnits × Int) :=
  if (lit "[").isPrefixOf value then
    match value.idxOf? 0x5D with
    | none => none
    | some stop =>
      let host := (value.take stop).drop 1
      let suffix := value.drop (stop + 1)
      if stop ≤ 1 then none
      else if 0x3A ∉ host || (suffix ≠ [] && !(lit ":").isPrefixOf suffix) then none
      else if suffix = [] then some (host, defaultPort)
      else if suffix.length = 1 || (suffix.drop 1).any fun u => !isDigit u then none
      else (toIntOrNull (suffix.drop 1)).map fun port => (host, port)
  else
    match value.count 0x3A with
    | 1 =>
      let colon := value.idxOf 0x3A
      let portText := value.drop (colon + 1)
      if portText = [] || portText.any fun u => !isDigit u then none
      else (toIntOrNull portText).map fun port => (value.take colon, port)
    -- no colon, or an IPv6 address without brackets
    | _ => some (value, defaultPort)

/-- `parseRdpEndpoint`. -/
def parseRdpEndpoint (input : CodeUnits) (defaultPort : Int) : Option RdpEndpoint :=
  let value := trim input
  if ¬ (1 ≤ defaultPort ∧ defaultPort ≤ 65535) then none
  else if value = [] || value.any isWhitespace then none
  else
    match splitRdpEndpoint value defaultPort with
    | none => none
    | some (host, port) =>
      if h : isBlank host = false ∧ 1 ≤ port ∧ port ≤ 65535 then some ⟨host, port, h.1, h.2⟩
      else none

/-- The address of a number. -/
def octetsOf (num : Nat) : List Nat :=
  [num >>> 24 &&& 0xFF, num >>> 16 &&& 0xFF, num >>> 8 &&& 0xFF, num &&& 0xFF]

/-- A number that has a first octet. -/
def addressNumber (num : Int) : Option Nat :=
  if 16777216 ≤ num ∧ num ≤ 4294967295 then some num.toNat else none

/-- The number of an id in hexadecimal digits. -/
def hexNumber (up : UpperCase) (basePart compact : CodeUnits) : Option Nat :=
  if !isGlobalPcId up basePart && (lit "XY").isPrefixOf (up.uppercase compact) &&
      compact.length = 10 then
    (toLongOrNull 16 (compact.drop 2)).bind addressNumber
  else none

/-- The number of an id in decimal digits. -/
def decimalNumber (compact : CodeUnits) : Option Nat :=
  if (8 ≤ compact.length && compact.length ≤ 10) && compact.all isDigit then
    (toLongOrNull 10 compact).bind addressNumber
  else none

/-- The text before a colon that is the only one, and the port behind it. -/
def splitPort (raw : CodeUnits) (defaultPort : Int) : Option (CodeUnits × Int) :=
  match lastIndexOf 0x3A raw with
  | none => some (raw, defaultPort)
  | some colonIdx =>
    if 0 < colonIdx && raw.idxOf? 0x3A = some colonIdx then
      (toIntOrNull (trim (raw.drop (colonIdx + 1)))).map fun port =>
        (trim (raw.take colonIdx), port)
    else some (raw, defaultPort)

theorem isBlank_dotted (n m : Nat) (rest : List Nat) :
    isBlank (dotted (n :: m :: rest)) = false := by
  have hdot : (0x2E : UInt16) ∈ dotted (n :: m :: rest) := by
    rw [dotted, map_cons, map_cons, intercalate_cons_cons]
    exact mem_append_left _ (mem_append_right _ mem_cons_self)
  exact all_eq_false.2 ⟨_, hdot, by decide⟩

/-- `parsePcIdOrEndpoint`. -/
def parsePcIdOrEndpoint (up : UpperCase) (input : CodeUnits) (defaultPort : Int) :
    Option RdpEndpoint :=
  let raw := trim input
  if raw = [] then none
  else
    match splitPort raw defaultPort with
    | none => none
    | some (basePart, portPart) =>
      if hport : 1 ≤ portPart ∧ portPart ≤ 65535 then
        let compact := (basePart.filter (· ≠ 0x2D)).filter (· ≠ 0x20)
        match (hexNumber up basePart compact).orElse fun _ => decimalNumber compact with
        | some num => some ⟨dotted (octetsOf num), portPart, isBlank_dotted .., hport⟩
        | none => parseRdpEndpoint raw defaultPort
      else none

/-! ## The number of an address -/

/-- The number an address stands for. -/
def Ipv4.number (x : Ipv4) : Nat :=
  x.a.toNat * 2 ^ 24 + x.b.toNat * 2 ^ 16 + x.c.toNat * 2 ^ 8 + x.d.toNat

section Number

variable (x : Ipv4)

theorem Ipv4.number_lt : x.number < 2 ^ 32 := by
  have ha := x.a.toNat_lt
  have hb := x.b.toNat_lt
  have hc := x.c.toNat_lt
  have hd := x.d.toNat_lt
  unfold Ipv4.number
  omega

/-- The shifted octets put together. -/
theorem Ipv4.number_eq_or :
    ((x.a.toNat &&& 0xFF) <<< 24) ||| ((x.b.toNat &&& 0xFF) <<< 16) |||
      ((x.c.toNat &&& 0xFF) <<< 8) ||| (x.d.toNat &&& 0xFF) = x.number := by
  have hmask : ∀ u : UInt8, u.toNat &&& 0xFF = u.toNat := by
    intro u
    rw [show (0xFF : Nat) = 2 ^ 8 - 1 from rfl, Nat.and_two_pow_sub_one_eq_mod]
    exact Nat.mod_eq_of_lt u.toNat_lt
  have hb := x.b.toNat_lt
  have hc := x.c.toNat_lt
  have hd := x.d.toNat_lt
  rw [hmask, hmask, hmask, hmask]
  -- each octet fits below the lowest bit of what is in front of it
  have h₁ : (x.a.toNat <<< 24) ||| (x.b.toNat <<< 16) =
      (x.a.toNat * 256 + x.b.toNat) <<< 16 := by
    rw [← Nat.shiftLeft_add_eq_or_of_lt (by rw [Nat.shiftLeft_eq]; omega)]
    simp only [Nat.shiftLeft_eq]
    omega
  have h₂ : ((x.a.toNat * 256 + x.b.toNat) <<< 16) ||| (x.c.toNat <<< 8) =
      ((x.a.toNat * 256 + x.b.toNat) * 256 + x.c.toNat) <<< 8 := by
    rw [← Nat.shiftLeft_add_eq_or_of_lt (by rw [Nat.shiftLeft_eq]; omega)]
    simp only [Nat.shiftLeft_eq]
    omega
  rw [h₁, h₂, ← Nat.shiftLeft_add_eq_or_of_lt hd, Nat.shiftLeft_eq, Ipv4.number]
  omega

/-- **The octets of the number are those of the address.** -/
theorem Ipv4.octetsOf_number : octetsOf x.number = x.octets := by
  have ha := x.a.toNat_lt
  have hb := x.b.toNat_lt
  have hc := x.c.toNat_lt
  have hd := x.d.toNat_lt
  have hmask : ∀ n : Nat, n &&& 0xFF = n % 256 := fun n =>
    Nat.and_two_pow_sub_one_eq_mod n 8
  simp only [octetsOf, Ipv4.octets, hmask, Nat.shiftRight_eq_div_pow, Ipv4.number,
    List.cons.injEq, and_true]
  omega

/-- Different addresses have different numbers. -/
theorem Ipv4.number_injective : Function.Injective Ipv4.number := by
  intro x y h
  have hoctets : x.octets = y.octets := by
    rw [← x.octetsOf_number, ← y.octetsOf_number, h]
  obtain ⟨a, b, c, d⟩ := x
  obtain ⟨a', b', c', d'⟩ := y
  simp only [Ipv4.octets, List.cons.injEq, and_true, UInt8.toNat_inj] at hoctets
  obtain ⟨rfl, rfl, rfl, rfl⟩ := hoctets
  rfl

end Number

/-! ## The digits of an id -/

/-- The ten digits of a number. -/
def idDigits (num : Nat) : List Nat := (digits 10 num).leftpad 10 0

theorem idDigits_lt {num d : Nat} (h : d ∈ idDigits num) : d < 10 :=
  leftpad_digits_lt (by decide) h

theorem length_idDigits {num : Nat} (h : num < 2 ^ 32) : (idDigits num).length = 10 :=
  length_leftpad_digits (by decide) (by decide) (by omega)

theorem value_idDigits (num : Nat) : value 10 (idDigits num) = num := by
  rw [idDigits, value_leftpad, value_digits]

/-- The id of a number. -/
def idText (num : Nat) : CodeUnits := hyphenate 0x2D ((idDigits num).map digitUnit)

section Hyphenate

variable {α β : Type*}

theorem map_leftpad (f : α → β) (k : Nat) (z : α) (l : List α) :
    (l.leftpad k z).map f = (l.map f).leftpad k (f z) := by
  simp [leftpad]

theorem map_hyphenate (f : α → β) (dash : α) (digits : List α) :
    (hyphenate dash digits).map f = hyphenate (f dash) (digits.map f) := by
  simp [hyphenate]

theorem mem_hyphenate {dash : α} {digits : List α} {x : α} (h : x ∈ hyphenate dash digits) :
    x = dash ∨ x ∈ digits := by
  simp only [hyphenate, mem_append, mem_cons] at h
  rcases h with h | rfl | h | rfl | h
  · exact Or.inr (mem_of_mem_take h)
  · exact Or.inl rfl
  · exact Or.inr (mem_of_mem_drop (mem_of_mem_take h))
  · exact Or.inl rfl
  · exact Or.inr (mem_of_mem_drop (mem_of_mem_take h))

theorem length_hyphenate (dash : α) {digits : List α} (h : digits.length = 10) :
    (hyphenate dash digits).length = 12 := by
  simp [hyphenate, h]

theorem filter_hyphenate [DecidableEq α] {dash : α} {digits : List α}
    (hlength : digits.length = 10) (hdash : dash ∉ digits) :
    (hyphenate dash digits).filter (· ≠ dash) = digits := by
  have hkeep : ∀ {l : List α}, dash ∉ l → l.filter (· ≠ dash) = l := by
    intro l hl
    rw [filter_eq_self]
    intro x hx
    exact decide_eq_true fun heq => hl (heq ▸ hx)
  have hsplit : digits = digits.take 3 ++ ((digits.drop 3).take 3 ++ (digits.drop 6).take 4) := by
    have hlast : (digits.drop 6).take 4 = digits.drop 6 :=
      take_of_length_le (by rw [length_drop, hlength])
    have hrest : digits.drop 6 = (digits.drop 3).drop 3 := by rw [drop_drop]
    rw [hlast, hrest, take_append_drop, take_append_drop]
  have hfilter : (hyphenate dash digits).filter (· ≠ dash) =
      (digits.take 3 ++ ((digits.drop 3).take 3 ++ (digits.drop 6).take 4)).filter
        (· ≠ dash) := by
    simp [hyphenate]
  rw [hfilter, ← hsplit, hkeep hdash]

end Hyphenate

/-! ## The writers of the client -/

theorem dot_not_mem_decimal (n : Nat) : (0x2E : UInt16) ∉ decimal n := by
  intro h
  exact absurd (mem_decimal h).1 (by decide)

theorem mem_dotted {octets : List Nat} {u : UInt16} (h : u ∈ dotted octets) :
    u = 0x2E ∨ ∃ n, u ∈ decimal n := by
  induction octets with
  | nil => exact absurd h not_mem_nil
  | cons n octets ih =>
    cases octets with
    | nil =>
      rw [dotted, map_singleton, intercalate_singleton] at h
      exact Or.inr ⟨n, h⟩
    | cons m octets =>
      rw [dotted, map_cons, map_cons, intercalate_cons_cons] at h
      rcases mem_append.1 h with h | h
      · rcases mem_append.1 h with h | h
        · exact Or.inr ⟨n, h⟩
        · exact Or.inl (mem_singleton.1 h)
      · exact ih h

theorem trim_dotted (octets : List Nat) : trim (dotted octets) = dotted octets := by
  apply trim_eq_self
  intro u hu
  rcases mem_dotted hu with rfl | ⟨n, hn⟩
  · rfl
  · exact (mem_decimal hn).2.2

theorem splitOn_dotted {octets : List Nat} (h : octets ≠ []) :
    (dotted octets).splitOn 0x2E = octets.map decimal := by
  apply splitOn_intercalate
  · intro part hpart
    obtain ⟨n, -, rfl⟩ := mem_map.1 hpart
    exact dot_not_mem_decimal n
  · exact mt map_eq_nil_iff.1 h

/-- **The writers of the client write the number of the address.** -/
theorem pcIdOf_text (x : Ipv4) : pcIdOf x.text = some (idText x.number) := by
  have ha := x.a.toNat_lt
  have hb := x.b.toNat_lt
  have hc := x.c.toNat_lt
  have hd := x.d.toNat_lt
  have hparts : ((trim x.text).splitOn 0x2E).mapM toIntOrNull =
      some [(x.a.toNat : Int), x.b.toNat, x.c.toNat, x.d.toNat] := by
    have hne : x.octets ≠ [] := cons_ne_nil _ _
    rw [Ipv4.text, trim_dotted, splitOn_dotted hne]
    simp only [Ipv4.octets, map_cons, map_nil, mapM_cons, mapM_nil]
    rw [toIntOrNull_decimal (by omega), toIntOrNull_decimal (by omega),
      toIntOrNull_decimal (by omega), toIntOrNull_decimal (by omega)]
    rfl
  have hrange : ¬ ([(x.a.toNat : Int), x.b.toNat, x.c.toNat, x.d.toNat].any
      fun n => n < 0 || 255 < n) = true := by
    simp only [any_cons, any_nil, Bool.or_eq_true, decide_eq_true_eq, Bool.false_eq_true, or_false]
    omega
  have hpad : (decimal x.number).leftpad 10 0x30 = (idDigits x.number).map digitUnit :=
    (map_leftpad digitUnit 10 0 _).symm
  rw [pcIdOf, hparts]
  dsimp only
  rw [if_neg hrange]
  simp only [Int.toNat_natCast]
  rw [x.number_eq_or, hpad]
  rfl

/-! ## The writer of the host agent -/

namespace HostAgent

theorem digitByte_spec {d : Nat} (h : d < 10) :
    isSpace (digitByte d) = false ∧ isDigit (digitByte d) = true ∧ digitByte d ≠ 0x2D ∧
      digitByte d ≠ 0x2B ∧ (digitByte d).toNat - 0x30 = d ∧
      (digitByte d).toUInt16 = digitUnit d := by
  revert d
  decide

/-- The text of a number, as bytes. -/
def chars (n : Nat) : List UInt8 := (digits 10 n).map digitByte

/-- **A number is scanned up to where its digits end.** -/
theorem scanUnsigned_chars (n : Nat) {rest : List UInt8}
    (hrest : ∀ c ∈ rest.head?, isDigit c = false) :
    scanUnsigned (chars n ++ rest) = some (UInt32.ofNat n, rest) := by
  have hall : ∀ c ∈ chars n, isDigit c = true := by
    intro c hc
    obtain ⟨d, hd, rfl⟩ := mem_map.1 hc
    exact (digitByte_spec (decimal_digits n d hd)).2.1
  obtain ⟨d, ds, hds⟩ := exists_cons_of_ne_nil (digits_ne_nil 10 n)
  have hd : d < 10 := decimal_digits n d (hds ▸ mem_cons_self)
  have hchars : chars n = digitByte d :: ds.map digitByte := by rw [chars, hds, map_cons]
  obtain ⟨hspace, -, hminus, hplus, -⟩ := digitByte_spec hd
  -- neither white space nor a sign in front
  have hstart : (chars n ++ rest).dropWhile isSpace = chars n ++ rest := by
    rw [hchars, cons_append, dropWhile_cons_of_neg]
    rw [hspace]
    exact Bool.false_ne_true
  have hend : rest.takeWhile isDigit = [] ∧ rest.dropWhile isDigit = rest := by
    cases rest with
    | nil => exact ⟨rfl, rfl⟩
    | cons c rest =>
      have hc : ¬ isDigit c = true := by
        rw [hrest c rfl]
        exact Bool.false_ne_true
      exact ⟨takeWhile_cons_of_neg hc, dropWhile_cons_of_neg hc⟩
  have htake : (chars n ++ rest).takeWhile isDigit = chars n := by
    rw [takeWhile_append_of_pos hall, hend.1, append_nil]
  have hdrop : (chars n ++ rest).dropWhile isDigit = rest := by
    rw [dropWhile_append_of_pos hall, hend.2]
  have hvalue : (chars n).map (fun c => c.toNat - 0x30) = digits 10 n := by
    have hdigit : ∀ d ∈ digits 10 n,
        ((fun c : UInt8 => c.toNat - 0x30) ∘ digitByte) d = id d := by
      intro d hd
      exact (digitByte_spec (decimal_digits n d hd)).2.2.2.2.1
    rw [chars, map_map, map_congr_left hdigit, map_id]
  have hhead : (chars n ++ rest).head? = some (digitByte d) := by
    rw [hchars]
    rfl
  have hne : ¬ chars n = [] := by
    rw [hchars]
    exact cons_ne_nil _ _
  unfold scanUnsigned
  simp only [hstart, hhead, Option.some.injEq, hminus, hplus, decide_false, Bool.or_false,
    Bool.false_eq_true, if_false, htake, hdrop, hvalue, value_digits, if_neg hne]

/-- A dot in front of a number. -/
theorem scanDotUnsigned_chars (n : Nat) {rest : List UInt8}
    (hrest : ∀ c ∈ rest.head?, isDigit c = false) :
    scanDotUnsigned (0x2E :: (chars n ++ rest)) = some (UInt32.ofNat n, rest) :=
  scanUnsigned_chars n hrest

/-- **An address is scanned.** -/
theorem scanDotted_chars (x : Ipv4) :
    scanDotted x.chars = some (UInt32.ofNat x.a.toNat, UInt32.ofNat x.b.toNat,
      UInt32.ofNat x.c.toNat, UInt32.ofNat x.d.toNat) := by
  have htext : x.chars = chars x.a.toNat ++ 0x2E :: (chars x.b.toNat ++
      0x2E :: (chars x.c.toNat ++ 0x2E :: (chars x.d.toNat ++ []))) := by
    simp [Ipv4.chars, Ipv4.octets, chars, intercalate]
  have hdot : ∀ {rest : List UInt8}, ∀ c ∈ ((0x2E : UInt8) :: rest).head?, isDigit c = false := by
    rintro rest c ⟨⟩
    rfl
  have hend : ∀ c ∈ ([] : List UInt8).head?, isDigit c = false := by
    rintro c ⟨⟩
  rw [scanDotted, htext, scanUnsigned_chars _ hdot]
  simp only [Option.bind_eq_bind, Option.bind_some, scanDotUnsigned_chars _ hdot,
    scanDotUnsigned_chars _ hend]
  rfl

/-- **The host agent writes the number of the address**, as the client does. -/
theorem encode_chars (x : Ipv4) {cap : Nat} (hcap : 16 ≤ cap) :
    ∃ out, EncodeIpv4ToPcId x.chars cap = some out ∧
      out.map toUInt16 = idText x.number := by
  have hnumber : ∀ u : UInt8, (UInt32.ofNat u.toNat).toNat = u.toNat := fun u =>
    UInt32.toNat_ofNat_of_lt' (Nat.lt_trans u.toNat_lt (by decide))
  have hoctet : ∀ u : UInt8, ¬ UInt32.ofNat u.toNat > 255 := by
    intro u hgt
    have hlt : u.toNat < 256 := u.toNat_lt
    have hvalue : 255 < (UInt32.ofNat u.toNat).toNat := UInt32.lt_iff_toNat_lt.1 hgt
    rw [hnumber] at hvalue
    omega
  have hshift : ∀ (u : UInt8) (k : UInt32), k.toNat ≤ 24 →
      ((UInt32.ofNat u.toNat &&& 0xFF) <<< k).toNat = (u.toNat &&& 0xFF) <<< k.toNat := by
    intro u k hk
    have hmask : u.toNat &&& 0xFF ≤ 255 := Nat.and_le_right
    have hpow : 2 ^ k.toNat ≤ 2 ^ 24 := Nat.pow_le_pow_right (by decide) hk
    rw [UInt32.toNat_shiftLeft, UInt32.toNat_and, hnumber, Nat.mod_eq_of_lt (by omega : _ < 32)]
    apply Nat.mod_eq_of_lt
    calc (u.toNat &&& 0xFF) <<< k.toNat = (u.toNat &&& 0xFF) * 2 ^ k.toNat := Nat.shiftLeft_eq ..
      _ ≤ 255 * 2 ^ 24 := Nat.mul_le_mul hmask hpow
      _ < 2 ^ 32 := by decide
  let num := ((UInt32.ofNat x.a.toNat &&& 0xFF) <<< 24) |||
    ((UInt32.ofNat x.b.toNat &&& 0xFF) <<< 16) ||| ((UInt32.ofNat x.c.toNat &&& 0xFF) <<< 8) |||
    (UInt32.ofNat x.d.toNat &&& 0xFF)
  have hnum : num.toNat = x.number := by
    rw [← x.number_eq_or]
    simp only [num, UInt32.toNat_or, hshift _ 24 (by decide), hshift _ 16 (by decide),
      hshift _ 8 (by decide), UInt32.toNat_and, hnumber]
    rfl
  have hlength := length_idDigits x.number_lt
  have hdigits : ((printUnsigned num).leftpad 10 0x30).take 15 =
      (idDigits x.number).map digitByte := by
    have hpad : (printUnsigned num).leftpad 10 0x30 = (idDigits x.number).map digitByte := by
      rw [printUnsigned, hnum]
      exact (map_leftpad digitByte 10 0 _).symm
    rw [hpad, take_of_length_le]
    rw [length_map, hlength]
    decide
  refine ⟨hyphenate 0x2D ((idDigits x.number).map digitByte), ?_, ?_⟩
  · rw [EncodeIpv4ToPcId, if_neg (Nat.not_lt.2 hcap), scanDotted_chars]
    dsimp only
    have hsmall : ¬ (decide (UInt32.ofNat x.a.toNat > 255) ||
        decide (UInt32.ofNat x.b.toNat > 255) || decide (UInt32.ofNat x.c.toNat > 255) ||
        decide (UInt32.ofNat x.d.toNat > 255)) = true := by
      simp only [hoctet, decide_false, Bool.or_false, Bool.false_eq_true, not_false_eq_true]
    rw [if_neg hsmall, hdigits, take_of_length_le]
    rw [length_hyphenate _ (by rw [length_map, hlength])]
    omega
  · rw [map_hyphenate, map_map, idText]
    congr 1
    apply map_congr_left
    intro d hd
    exact (digitByte_spec (idDigits_lt hd)).2.2.2.2.2

end HostAgent

/-! ## The reader -/

section Read

variable {num : Nat}

theorem mem_idText {u : UInt16} (h : u ∈ idText num) :
    u = 0x2D ∨ ∃ d < 10, digitUnit d = u := by
  rcases mem_hyphenate h with hdash | hdigit
  · exact Or.inl hdash
  · exact Or.inr (mem_map_digitUnit (fun _ hd => idDigits_lt hd) hdigit)

theorem isWhitespace_idText {u : UInt16} (h : u ∈ idText num) : isWhitespace u = false := by
  rcases mem_idText h with rfl | ⟨d, hd, rfl⟩
  · rfl
  · exact (digitUnit_spec hd).2.2.1

theorem colon_not_mem_idText : (0x3A : UInt16) ∉ idText num := by
  intro h
  rcases mem_idText h with hdash | ⟨d, hd, hcolon⟩
  · exact absurd hdash (by decide)
  · have hhigh := (digitUnit_spec hd).2.1
    rw [hcolon] at hhigh
    exact absurd hhigh (by decide)

theorem compact_idText (hnum : num < 2 ^ 32) :
    ((idText num).filter (· ≠ 0x2D)).filter (· ≠ 0x20) = (idDigits num).map digitUnit := by
  have hnone : ∀ u : UInt16, u < 0x30 → u ∉ (idDigits num).map digitUnit := by
    intro u hu h
    obtain ⟨d, hd, rfl⟩ := mem_map_digitUnit (fun _ hd => idDigits_lt hd) h
    exact absurd (digitUnit_spec hd).1 (UInt16.not_le.2 hu)
  have hlength : ((idDigits num).map digitUnit).length = 10 := by
    rw [length_map, length_idDigits hnum]
  rw [idText, filter_hyphenate hlength (hnone 0x2D (by decide)), filter_eq_self]
  intro u hu
  exact decide_eq_true fun hspace => hnone 0x20 (by decide) (hspace ▸ hu)

theorem hexNumber_digits (up : UpperCase) (basePart : CodeUnits) {ds : List Nat}
    (hds : ∀ d ∈ ds, d < 10) : hexNumber up basePart (ds.map digitUnit) = none := by
  have hascii : ∀ u ∈ ds.map digitUnit, u < 0x80 := by
    intro u hu
    obtain ⟨d, hd, rfl⟩ := mem_map_digitUnit hds hu
    exact UInt16.lt_of_le_of_lt (digitUnit_spec hd).2.1 (by decide)
  have hupper : ∀ u ∈ (ds.map digitUnit).map asciiUpper, u ≠ 0x58 := by
    intro u hu
    obtain ⟨v, hv, rfl⟩ := mem_map.1 hu
    obtain ⟨d, hd, rfl⟩ := mem_map_digitUnit hds hv
    have hletter : ∀ d < 10, asciiUpper (digitUnit d) ≠ 0x58 := by decide
    exact hletter d hd
  have hstart : (lit "XY").isPrefixOf (up.uppercase (ds.map digitUnit)) = false := by
    rw [up.ascii _ hascii]
    by_contra h
    obtain ⟨rest, hrest⟩ := isPrefixOf_iff_prefix.1 (eq_true_of_ne_false h)
    have hmem : (0x58 : UInt16) ∈ (ds.map digitUnit).map asciiUpper := by
      rw [← hrest]
      exact mem_cons_self
    exact hupper _ hmem rfl
  rw [hexNumber, hstart, Bool.and_false, Bool.false_and]
  rfl

theorem decimalNumber_idDigits (hlow : 2 ^ 24 ≤ num) (hhigh : num < 2 ^ 32) :
    decimalNumber ((idDigits num).map digitUnit) = some num := by
  have hds : ∀ d ∈ idDigits num, d < 10 := fun _ hd => idDigits_lt hd
  have hlength := length_idDigits hhigh
  have hne : idDigits num ≠ [] := by
    intro hnil
    rw [hnil] at hlength
    cases hlength
  have hall : ((idDigits num).map digitUnit).all isDigit = true := by
    rw [all_eq_true]
    intro u hu
    obtain ⟨d, hd, rfl⟩ := mem_map_digitUnit hds hu
    exact (digitUnit_spec hd).2.2.2.2
  have hvalue := value_idDigits num
  have hread : toLongOrNull 10 ((idDigits num).map digitUnit) =
      some (value 10 (idDigits num) : Int) :=
    toNumberOrNull_digits hds hne (by omega) (by omega)
  have hrange : (16777216 : Int) ≤ num ∧ (num : Int) ≤ 4294967295 := by omega
  rw [decimalNumber, length_map, hlength, hall, hread, hvalue]
  show addressNumber (num : Int) = some num
  rw [addressNumber, if_pos hrange]
  rfl

/-- **A text whose base part is an id is read as the address and the port.** -/
theorem parse_of_splitPort (up : UpperCase) {input raw : CodeUnits} {defaultPort port : Int}
    {x : Ipv4} (hx : 1 ≤ x.a) (hraw : trim input = raw) (hne : raw ≠ [])
    (hsplit : splitPort raw defaultPort = some (idText x.number, port))
    (hport : 1 ≤ port ∧ port ≤ 65535) :
    ∃ hblank hrange,
      parsePcIdOrEndpoint up input defaultPort = some ⟨x.text, port, hblank, hrange⟩ := by
  have hlow : 2 ^ 24 ≤ x.number := by
    have ha : 1 ≤ x.a.toNat := le_iff_toNat_le.1 hx
    unfold Ipv4.number
    omega
  have hnumber : ((hexNumber up (idText x.number)
      (((idText x.number).filter (· ≠ 0x2D)).filter (· ≠ 0x20))).orElse fun _ =>
        decimalNumber (((idText x.number).filter (· ≠ 0x2D)).filter (· ≠ 0x20))) =
          some x.number := by
    rw [compact_idText x.number_lt, hexNumber_digits up _ (fun _ hd => idDigits_lt hd),
      decimalNumber_idDigits hlow x.number_lt]
    rfl
  have htext : dotted (octetsOf x.number) = x.text := by rw [x.octetsOf_number, Ipv4.text]
  have hblank : isBlank x.text = false := isBlank_dotted _ _ _
  refine ⟨hblank, hport, ?_⟩
  unfold parsePcIdOrEndpoint
  simp only [hraw, if_neg hne, hsplit, dif_pos hport, hnumber, htext]

end Read

/-! ## One address for all -/

theorem toUInt16_injective : Function.Injective toUInt16 := by
  intro c c' h
  have hnat := congrArg UInt16.toNat h
  rw [toNat_toUInt16, toNat_toUInt16] at hnat
  exact UInt8.toNat_inj.1 hnat

/-- The C string of an address is its text. -/
theorem Ipv4.map_chars (x : Ipv4) : x.chars.map toUInt16 = x.text := by
  have hoctet : ∀ n, ((digits 10 n).map HostAgent.digitByte).map toUInt16 =
      decimal n := by
    intro n
    rw [map_map, decimal]
    apply map_congr_left
    intro d hd
    exact (HostAgent.digitByte_spec (decimal_digits n d hd)).2.2.2.2.2
  simp only [Ipv4.chars, Ipv4.text, dotted, Ipv4.octets, map_cons, map_nil,
    intercalate_cons_cons, intercalate_singleton, map_append, hoctet]
  rfl

theorem splitPort_idText (num : Nat) (defaultPort : Int) :
    splitPort (idText num) defaultPort = some (idText num, defaultPort) := by
  have hnone : lastIndexOf 0x3A (idText num) = none := by
    rw [lastIndexOf, idxOf?_eq_none_iff.2 (mt mem_reverse.1 colon_not_mem_idText)]
    rfl
  rw [splitPort, hnone]

theorem trim_idText (num : Nat) : trim (idText num) = idText num :=
  trim_eq_self fun _ hu => isWhitespace_idText hu

theorem idText_ne_nil (num : Nat) : idText num ≠ [] := by
  rw [idText, hyphenate]
  exact append_ne_nil_of_right_ne_nil _ (cons_ne_nil _ _)

theorem splitPort_idText_port {num port : Nat} (hport : port < 2 ^ 31) (defaultPort : Int) :
    splitPort (idText num ++ 0x3A :: decimal port) defaultPort =
      some (idText num, (port : Int)) := by
  have hcolon : (0x3A : UInt16) ∉ decimal port := by
    intro h
    exact absurd (mem_decimal h).2.1 (by decide)
  have hpos : 0 < (idText num).length := length_pos_iff.2 (idText_ne_nil num)
  have htrim : trim (decimal port) = decimal port :=
    trim_eq_self fun _ hu => (mem_decimal hu).2.2
  have hdrop : (idText num ++ 0x3A :: decimal port).drop ((idText num).length + 1) =
      decimal port := by
    rw [drop_append]
    simp
  rw [splitPort, lastIndexOf_append_cons hcolon]
  dsimp only
  rw [indexOf_append_cons colon_not_mem_idText, if_pos (by simp [hpos]), hdrop, htrim,
    toIntOrNull_decimal hport, take_left, trim_idText]
  rfl

/-- **A PC id denotes one address for every component**: the three writers agree on it, it
is ten digits in three groups, reading it gives back the address (and the port, where one
follows), and no other address has it. -/
theorem pcId_denotes (up : UpperCase) (x : Ipv4) (hx : 1 ≤ x.a) :
    ∃ id, encodeIpv4ToPcId x.text = some id ∧
      LanScanner.encodeIpv4ToPcId x.text = some id ∧
      (∀ ipv4 : List UInt8, ipv4.map toUInt16 = x.text → ∀ cap, 16 ≤ cap →
        ∃ out, HostAgent.EncodeIpv4ToPcId ipv4 cap = some out ∧
          out.map toUInt16 = id) ∧
      (∃ digits : List Nat, digits.length = 10 ∧ (∀ d ∈ digits, d < 10) ∧
        id = hyphenate 0x2D (digits.map digitUnit)) ∧
      (∀ defaultPort : Int, 1 ≤ defaultPort ∧ defaultPort ≤ 65535 →
        ∃ hblank hrange, parsePcIdOrEndpoint up id defaultPort =
          some ⟨x.text, defaultPort, hblank, hrange⟩) ∧
      (∀ port : Nat, 1 ≤ port ∧ port ≤ 65535 → ∀ defaultPort : Int,
        ∃ hblank hrange, parsePcIdOrEndpoint up (id ++ 0x3A :: decimal port) defaultPort =
          some ⟨x.text, (port : Int), hblank, hrange⟩) ∧
      ∀ y : Ipv4, encodeIpv4ToPcId y.text = some id → y = x := by
  refine ⟨idText x.number, pcIdOf_text x, pcIdOf_text x,
    ?_, ⟨idDigits x.number, length_idDigits x.number_lt, fun _ hd => idDigits_lt hd, rfl⟩,
    ?_, ?_, ?_⟩
  · intro ipv4 htext cap hcap
    have hchars : ipv4 = x.chars :=
      map_injective_iff.2 toUInt16_injective (htext.trans x.map_chars.symm)
    rw [hchars]
    exact HostAgent.encode_chars x hcap
  · intro defaultPort hport
    exact parse_of_splitPort up hx (trim_idText _) (idText_ne_nil _)
      (splitPort_idText _ defaultPort) hport
  · intro port hport defaultPort
    have htrim : trim (idText x.number ++ 0x3A :: decimal port) =
        idText x.number ++ 0x3A :: decimal port := by
      apply trim_eq_self
      intro u hu
      rcases mem_append.1 hu with hid | hrest
      · exact isWhitespace_idText hid
      · rcases mem_cons.1 hrest with rfl | hdigit
        · rfl
        · exact (mem_decimal hdigit).2.2
    have hne : idText x.number ++ 0x3A :: decimal port ≠ [] :=
      append_ne_nil_of_left_ne_nil (idText_ne_nil _) _
    exact parse_of_splitPort up hx htrim hne (splitPort_idText_port (by omega) defaultPort)
      (by omega)
  · intro y hy
    have hid : idText y.number = idText x.number :=
      Option.some.inj ((pcIdOf_text y).symm.trans hy)
    have hdigits : (idDigits y.number).map digitUnit = (idDigits x.number).map digitUnit := by
      rw [← compact_idText y.number_lt, ← compact_idText x.number_lt, hid]
    have hvalue : (value 10 (idDigits y.number)) =
        value 10 (idDigits x.number) := by
      have hy' : ∀ d ∈ idDigits y.number, d < 10 := fun _ hd => idDigits_lt hd
      have hx' : ∀ d ∈ idDigits x.number, d < 10 := fun _ hd => idDigits_lt hd
      have hread := digitsOf_map_digitUnit hy'
      rw [hdigits, digitsOf_map_digitUnit hx'] at hread
      exact (Option.some.inj hread).symm
    rw [value_idDigits, value_idDigits] at hvalue
    exact Ipv4.number_injective hvalue

/-- `uppercase` on ASCII texts. -/
def asciiUpperCase : UpperCase := ⟨fun s => s.map asciiUpper, fun _ _ => rfl⟩

theorem pcId_denotes_lan :
    encodeIpv4ToPcId (Ipv4.mk 192 168 1 50).text = some (lit "323-223-5826") ∧
      ∃ hblank hrange, parsePcIdOrEndpoint asciiUpperCase (lit "323-223-5826") 3389 =
        some ⟨(Ipv4.mk 192 168 1 50).text, 3389, hblank, hrange⟩ := by
  obtain ⟨id, hid, -, -, -, hread, -⟩ :=
    pcId_denotes asciiUpperCase (Ipv4.mk 192 168 1 50) (by decide)
  have hlit : encodeIpv4ToPcId (Ipv4.mk 192 168 1 50).text = some (lit "323-223-5826") := by
    decide
  obtain rfl : id = lit "323-223-5826" := Option.some.inj (hid.symm.trans hlit)
  exact ⟨hlit, hread 3389 (by decide)⟩
