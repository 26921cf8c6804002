/-
# What a failed save leaves in the vault

`save` writes up to four entries of the vault before it writes the row: the row's own, the
one of host, port and user, and the two of the last connection.  When the row cannot be
written, only the first of them is rolled back, and that with a `put` that can fail as well.
-/
import XyDeskRemote.SessionsRepository

namespace SessionsRepository

open CredentialVault

variable {lowercase : String → String} {r : SessionsRepository}

/-! ## The writes, one after the other -/

/-- A write to the vault: how it ends, its key and the text. -/
structure VaultPut where
  outcome : PutOutcome
  id : String
  plaintext : String

/-- The writes that a save makes before it writes the row. -/
def credentialPuts (lowercase : String → String) (profile : ConnectionProfile)
    (shouldRemember : Bool) (answers : SaveAnswers) : List VaultPut :=
  let pass := profile.password.getD ""
  (if shouldRemember then [⟨answers.row, profile.id, pass⟩] else []) ++
  (if profile.HasPassword then
    [⟨answers.host,
      hostCredKey lowercase profile.host profile.port (profile.username.getD ""), pass⟩]
    else []) ++
  ((profile.username.filter fun u => !isBlank u).map fun u =>
    ⟨answers.lastUsername, lastUsernameKey, u⟩).toList ++
  (if shouldRemember then [⟨answers.lastPassword, lastPasswordKey, pass⟩] else [])

/-- What the last write under a key stores, of those that come to their edit. -/
def lastPut (key : String) : List VaultPut → Option String
  | [] => none
  | p :: puts =>
    (lastPut key puts).or (if p.outcome ≠ .raised ∧ p.id = key then some p.plaintext else none)

/-- The writes, one after the other. -/
def putAll (r : SessionsRepository) (puts : List VaultPut) : SessionsRepository :=
  puts.foldl (fun r p => r.put p.outcome p.id p.plaintext) r

theorem putAll_append (r : SessionsRepository) (puts puts' : List VaultPut) :
    r.putAll (puts ++ puts') = (r.putAll puts).putAll puts' :=
  List.foldl_append

theorem putAll_ite {c : Prop} [Decidable c] (r : SessionsRepository) (p : VaultPut) :
    r.putAll (if c then [p] else []) = if c then r.put p.outcome p.id p.plaintext else r := by
  split <;> rfl

theorem vault_put_eq (outcome : PutOutcome) (id plaintext key : String) :
    (r.put outcome id plaintext).vault key =
      (if outcome ≠ .raised ∧ id = key then some plaintext else none).or (r.vault key) := by
  rw [put]
  by_cases houtcome : outcome = .raised
  · simp [houtcome]
  · by_cases hkey : id = key
    · subst hkey
      simp [houtcome]
    · simp [houtcome, hkey, Function.update_of_ne (Ne.symm hkey)]

theorem vault_putAll (puts : List VaultPut) (key : String) :
    (r.putAll puts).vault key = (lastPut key puts).or (r.vault key) := by
  induction puts generalizing r with
  | nil => rfl
  | cons p puts ih =>
    have hstep : r.putAll (p :: puts) = (r.put p.outcome p.id p.plaintext).putAll puts := rfl
    rw [hstep, ih, vault_put_eq, lastPut, Option.or_assoc]

/-- The code's writes are these. -/
theorem saveCredentials_eq_putAll (profile : ConnectionProfile) (shouldRemember : Bool)
    (answers : SaveAnswers) :
    r.saveCredentials lowercase profile shouldRemember answers =
      r.putAll (credentialPuts lowercase profile shouldRemember answers) := by
  rw [saveCredentials, credentialPuts, putAll_append, putAll_append, putAll_append,
    putAll_ite, putAll_ite, putAll_ite]
  cases profile.username.filter fun u => !isBlank u with
  | none => rfl
  | some u => rfl

/-! ## What is rolled back -/

/-- The row's own entry was written and gets back what it was. -/
def RolledBack (r : SessionsRepository) (profile : ConnectionProfile) (shouldRemember : Bool)
    (answers : SaveAnswers) : Prop :=
  shouldRemember = true ∧ answers.row = .committed ∧
    (answers.rollback ≠ .raised ∨ r.vault profile.id = none)

/-- Every entry that the writes leave changed is the row's own, and that is rolled back. -/
def NothingNew (lowercase : String → String) (r : SessionsRepository)
    (profile : ConnectionProfile) (rememberPassword : Bool) (answers : SaveAnswers) : Prop :=
  let shouldRemember := rememberPassword && profile.HasPassword
  ∀ key plaintext,
    lastPut key (credentialPuts lowercase profile shouldRemember answers) = some plaintext →
      r.vault key = some plaintext ∨
        key = profile.id ∧ RolledBack r profile shouldRemember answers

theorem vault_save_throws (lowercase : String → String) {profile : ConnectionProfile}
    {rememberPassword : Bool} {answers : SaveAnswers} (hthrows : answers.upsert = false)
    (key : String) :
    (key = profile.id ∧
        RolledBack r profile (rememberPassword && profile.HasPassword) answers →
      (r.save lowercase profile rememberPassword answers).1.vault key = r.vault key) ∧
    (¬ (key = profile.id ∧
        RolledBack r profile (rememberPassword && profile.HasPassword) answers) →
      (r.save lowercase profile rememberPassword answers).1.vault key =
        (lastPut key (credentialPuts lowercase profile
          (rememberPassword && profile.HasPassword) answers)).or (r.vault key)) := by
  rw [save, saveCredentials_eq_putAll, if_neg (by rw [hthrows]; decide)]
  generalize (rememberPassword && decide profile.HasPassword) = shouldRemember
  cases shouldRemember with
  | false => exact ⟨fun h => absurd h.2.1 (by decide), fun _ => vault_putAll ..⟩
  | true =>
    by_cases hrow : answers.row = .committed
    · have hsaved : answers.row.saved = true := decide_eq_true hrow
      rw [hsaved]
      cases hold : r.vault profile.id with
      | none =>
        by_cases hkey : key = profile.id
        · subst hkey
          refine ⟨fun _ => ?_, fun h => absurd ⟨rfl, rfl, hrow, Or.inr hold⟩ h⟩
          simp [hold, forget]
        · refine ⟨fun h => absurd h.1 hkey, fun _ => ?_⟩
          simp [forget, Function.update_of_ne hkey, vault_putAll]
      | some old =>
        by_cases hrollback : answers.rollback = .raised
        · refine ⟨fun h => ?_, fun _ => ?_⟩
          · rcases h.2.2.2 with hback | hnone
            · exact absurd hrollback hback
            · exact absurd (hold.symm.trans hnone) (Option.some_ne_none _)
          · simp [put, hrollback, vault_putAll]
        · by_cases hkey : key = profile.id
          · subst hkey
            refine ⟨fun _ => ?_, fun h => absurd ⟨rfl, rfl, hrow, Or.inl hrollback⟩ h⟩
            simp [hold, put, hrollback]
          · refine ⟨fun h => absurd h.1 hkey, fun _ => ?_⟩
            simp [put, hrollback, Function.update_of_ne hkey, vault_putAll]
    · have hsaved : answers.row.saved = false := decide_eq_false hrow
      rw [hsaved]
      exact ⟨fun h => absurd h.2.2.1 hrow, fun _ => vault_putAll ..⟩

/-- **A save that throws leaves the vault as it was exactly when its writes stored nothing
new** but the row's own entry, and that was rolled back. -/
theorem save_throws_vault_iff (lowercase : String → String) (r : SessionsRepository)
    (profile : ConnectionProfile) (rememberPassword : Bool) (answers : SaveAnswers)
    (hthrows : answers.upsert = false) :
    (r.save lowercase profile rememberPassword answers).1.vault = r.vault ↔
      NothingNew lowercase r profile rememberPassword answers := by
  constructor
  · intro hvault key plaintext hput
    by_cases hback : key = profile.id ∧
        RolledBack r profile (rememberPassword && profile.HasPassword) answers
    · exact Or.inr hback
    · have hkey := ((vault_save_throws lowercase hthrows key).2 hback).symm
      rw [hvault, hput] at hkey
      exact Or.inl hkey.symm
  · intro hnew
    funext key
    by_cases hback : key = profile.id ∧
        RolledBack r profile (rememberPassword && profile.HasPassword) answers
    · exact (vault_save_throws lowercase hthrows key).1 hback
    · rw [(vault_save_throws lowercase hthrows key).2 hback]
      cases hput : lastPut key (credentialPuts lowercase profile
          (rememberPassword && profile.HasPassword) answers) with
      | none => rfl
      | some plaintext => exact ((hnew key plaintext hput).resolve_right hback).symm

/-- Only the first and the rollback of these writes come to their edit. -/
def rowAnswers : SaveAnswers :=
  { host := .raised, lastPassword := .raised, rollback := .uncommitted, upsert := false }

/-- A new password is written to the row's own entry alone, and that is rolled back. -/
theorem save_throws_vault_rolledBack :
    let r := (save asciiLowercase {} typedProfile true {}).1
    (r.save asciiLowercase { host := "PC", password := some "baru" } true rowAnswers).1.vault =
      r.vault := by
  intro r
  refine (save_throws_vault_iff asciiLowercase r _ true rowAnswers rfl).2 ?_
  intro key plaintext hput
  refine Or.inr ⟨?_, rfl, rfl, Or.inl (by decide)⟩
  have hputs : credentialPuts asciiLowercase { host := "PC", password := some "baru" } true
      rowAnswers = [⟨.committed, "PC:3389", "baru"⟩, ⟨.raised, "hostcred:pc:3389:", "baru"⟩,
        ⟨.raised, lastPasswordKey, "baru"⟩] := rfl
  by_contra hkey
  change lastPut key (credentialPuts _ _ true _) = _ at hput
  rw [hputs] at hput
  have hrow : ¬ "PC:3389" = key := fun h => hkey h.symm
  simp [lastPut, hrow] at hput

/-- **A save that throws changes the password of the row it did not write.** -/
theorem failed_save_changes_row :
    ∃ r, LabelledRun.run (step asciiLowercase) {} [.save untypedProfile false {}] = some r ∧
      (r.save asciiLowercase typedProfile false { upsert := false }).2 = none ∧
      (r.save asciiLowercase typedProfile false { upsert := false }).1.vault ≠ r.vault ∧
      (r.favorites asciiLowercase).map ConnectionProfile.password = [none] ∧
      ((r.save asciiLowercase typedProfile false { upsert := false }).1.favorites
        asciiLowercase).map ConnectionProfile.password = [some "rahasia"] := by
  refine ⟨_, rfl, rfl, ?_, ?_, ?_⟩
  · intro hvault
    have hkey := congrFun hvault (hostCredKey asciiLowercase "PC" 3389 "")
    revert hkey
    decide
  · rw [favorites_of_rows_singleton rfl]
    decide
  · rw [favorites_of_rows_singleton rfl]
    decide

end SessionsRepository
