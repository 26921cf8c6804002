/-
# Saved sessions and their passwords

`SessionsRepository` keeps the rows of the saved sessions in a database and their passwords
in `CredentialVault`.  A row's password can come from two keys of the vault: the row's own,
which is written when the user asks for it, and the one of host, port and user, which every
save with a password writes and nothing but `clear` is meant to remove: a password typed
once for a host fills in every later connection to it.
-/
import XyDeskRemote.KotlinText
import XyDeskRemote.LabelledRun
import XyDeskRemote.SessionState

open LabelledRun List Or

namespace ConnectionProfile

/-- `id`: the stable name of the row and of its key in the vault. -/
def id (p : ConnectionProfile) : String := p.key.getD (p.host ++ ":" ++ toString p.port)

/-- `!password.isNullOrEmpty()`. -/
def HasPassword (p : ConnectionProfile) : Prop := p.password.getD "" ≠ ""

instance : DecidablePred HasPassword :=
  fun p => inferInstanceAs (Decidable (p.password.getD "" ≠ ""))

end ConnectionProfile

/-! ## The keys of the vault -/

namespace CredentialVault

/-- White space in the sense of `trim`; every such character is one code unit. -/
def isWhitespace (c : Char) : Bool :=
  c.toNat < 0x10000 && KotlinText.isWhitespace (UInt16.ofNat c.toNat)

/-- `trim`. -/
def trim (s : String) : String :=
  String.ofList ((s.toList.dropWhile isWhitespace).rdropWhile isWhitespace)

/-- `isBlank`. -/
def isBlank (s : String) : Bool := s.toList.all isWhitespace

/-- The key of host, port and user; `lowercase` is the library's table, whatever it maps
to what. -/
def hostCredKey (lowercase : String → String) (host : String) (port : ℕ) (user : String) :
    String :=
  "hostcred:" ++ lowercase (trim host) ++ ":" ++ toString port ++ ":" ++ lowercase (trim user)

/-- Where the last user is kept. -/
def lastUsernameKey : String := "lastcred:username"

/-- Where the last password is kept. -/
def lastPasswordKey : String := "lastcred:password"

theorem hostCredKey_ne (lowercase : String → String) (host : String) (port : ℕ)
    (user : String) :
    hostCredKey lowercase host port user ≠ lastUsernameKey ∧
      hostCredKey lowercase host port user ≠ lastPasswordKey := by
  constructor
  · intro h
    have hchars := congrArg String.toList h
    simp [hostCredKey, lastUsernameKey] at hchars
  · intro h
    have hchars := congrArg String.toList h
    simp [hostCredKey, lastPasswordKey] at hchars

end CredentialVault

/-! ## The repository -/

/-- A row of the table. -/
structure FavoriteEntity where
  id : String
  host : String
  port : ℕ
  username : Option String
  domain : Option String
  label : Option String
  rememberPassword : Bool
  createdAtMs : ℕ
  lastUsedAtMs : Option ℕ
  deriving DecidableEq

/-- How a write to the vault ends: an exception in front of the edit, or what `commit()` answers.
When that is `false`, the entry is changed all the same, though in memory only. -/
inductive PutOutcome where
  | raised
  | uncommitted
  | committed
  deriving DecidableEq

/-- What `put` returns. -/
def PutOutcome.saved (outcome : PutOutcome) : Bool := outcome = committed

/-- What the system answers during a save: how its writes to the vault end, whether the row can be
written, and the time. -/
structure SaveAnswers where
  row : PutOutcome := .committed
  host : PutOutcome := .committed
  lastUsername : PutOutcome := .committed
  lastPassword : PutOutcome := .committed
  rollback : PutOutcome := .committed
  upsert : Bool := true
  createdAt : ℕ := 0
  lastUsed : ℕ := 0

/-- The rows and the vault. -/
structure SessionsRepository where
  rows : List FavoriteEntity := []
  vault : String → Option String := fun _ => none

namespace SessionsRepository

open CredentialVault

variable (lowercase : String → String)

/-- `dao.byId`. -/
def byId (r : SessionsRepository) (id : String) : Option FavoriteEntity :=
  r.rows.find? (·.id = id)

/-- `dao.upsert`, which replaces a row of the same id. -/
def upsert (r : SessionsRepository) (e : FavoriteEntity) : SessionsRepository :=
  { r with rows := r.rows.filter (·.id ≠ e.id) ++ [e] }

/-- `vault.put`. -/
def put (r : SessionsRepository) (outcome : PutOutcome) (id plaintext : String) :
    SessionsRepository :=
  if outcome ≠ .raised then { r with vault := Function.update r.vault id (some plaintext) } else r

/-- `vault.remove`. -/
def forget (r : SessionsRepository) (id : String) : SessionsRepository :=
  { r with vault := Function.update r.vault id none }

/-- The order of the list: `COALESCE(label, host) COLLATE NOCASE`. -/
def sortKey (e : FavoriteEntity) : String :=
  String.ofList ((e.label.getD e.host).toList.map Char.toLower)

/-- The row as a profile, with its password. -/
def toProfile (r : SessionsRepository) (e : FavoriteEntity) : ConnectionProfile where
  host := e.host
  port := e.port
  username := e.username
  password := (if e.rememberPassword then r.vault e.id else none).or
    (r.vault (hostCredKey lowercase e.host e.port (e.username.getD "")))
  domain := e.domain
  label := e.label
  key := some e.id

/-- `favorites`. -/
def favorites (r : SessionsRepository) : List ConnectionProfile :=
  (r.rows.mergeSort fun e e' => sortKey e ≤ sortKey e').map (r.toProfile lowercase)

/-- The writes to the vault before the row is written. -/
def saveCredentials (r : SessionsRepository) (profile : ConnectionProfile)
    (shouldRemember : Bool) (answers : SaveAnswers) : SessionsRepository :=
  let pass := profile.password.getD ""
  let r := if shouldRemember then r.put answers.row profile.id pass else r
  let r := if profile.HasPassword then
      r.put answers.host
        (hostCredKey lowercase profile.host profile.port (profile.username.getD "")) pass
    else r
  let r := match profile.username.filter fun u => !isBlank u with
    | some u => r.put answers.lastUsername lastUsernameKey u
    | none => r
  if shouldRemember then r.put answers.lastPassword lastPasswordKey pass else r

/-- The row that a save writes. -/
def savedRow (r : SessionsRepository) (profile : ConnectionProfile)
    (persistedRememberPassword : Bool) (answers : SaveAnswers) : FavoriteEntity where
  id := profile.id
  host := profile.host
  port := profile.port
  username := profile.username
  domain := profile.domain
  label := profile.label
  rememberPassword := persistedRememberPassword
  createdAtMs := ((r.byId profile.id).map (·.createdAtMs)).getD answers.createdAt
  lastUsedAtMs := some answers.lastUsed

/-- `save`; the result is `none` when the database throws. -/
def save (r : SessionsRepository) (profile : ConnectionProfile) (rememberPassword : Bool)
    (answers : SaveAnswers) : SessionsRepository × Option Bool :=
  let shouldRemember := rememberPassword && profile.HasPassword
  let oldPassword := if shouldRemember then r.vault profile.id else none
  let vaultSaved := shouldRemember && answers.row.saved
  let persistedRememberPassword := shouldRemember && vaultSaved
  let row := r.savedRow profile persistedRememberPassword answers
  let r := r.saveCredentials lowercase profile shouldRemember answers
  if answers.upsert then
    let r := r.upsert row
    (if persistedRememberPassword then r else r.forget profile.id,
      some (!shouldRemember || vaultSaved))
  else
    (if shouldRemember && vaultSaved then
      match oldPassword with
      | some old => r.put answers.rollback profile.id old
      | none => r.forget profile.id
    else r, none)

/-- `touch`. -/
def touch (r : SessionsRepository) (profile : ConnectionProfile) (now : ℕ) :
    SessionsRepository :=
  { r with
    rows := r.rows.map fun e =>
      if e.id = profile.id then { e with lastUsedAtMs := some now } else e }

/-- `remove`. -/
def remove (r : SessionsRepository) (id : String) : SessionsRepository :=
  let r := match r.byId id with
    | some e => { r with rows := r.rows.filter (·.id ≠ e.id) }
    | none => r
  r.forget id

/-- `clear`, with `vault.clearAll`. -/
def clear (_ : SessionsRepository) : SessionsRepository :=
  { rows := [], vault := fun _ => none }

end SessionsRepository

/-- A call on the repository. -/
inductive RepositoryCall where
  | save (profile : ConnectionProfile) (rememberPassword : Bool) (answers : SaveAnswers)
  | touch (profile : ConnectionProfile) (now : ℕ)
  | remove (id : String)
  | clear

namespace SessionsRepository

open CredentialVault

variable (lowercase : String → String)

/-- A call. -/
def step (r : SessionsRepository) : RepositoryCall → Option SessionsRepository
  | .save profile rememberPassword answers =>
    some (r.save lowercase profile rememberPassword answers).1
  | .touch profile now => some (r.touch profile now)
  | .remove id => some (r.remove id)
  | .clear => some r.clear

end SessionsRepository

/-! ## What the calls so far asked for -/

namespace RepositoryCall

open CredentialVault

/-- `clear` is called. -/
def isClear : RepositoryCall → Bool
  | .clear => true
  | _ => false

/-- The profile of the last save of a row and whether it asked to remember, from the calls
so far, the newest one first; a save that threw has not written its row. -/
def lastSave (id : String) : List RepositoryCall → Option (ConnectionProfile × Bool)
  | [] => none
  | .save profile rememberPassword answers :: past =>
    if profile.id = id ∧ answers.upsert = true then some (profile, rememberPassword)
    else lastSave id past
  | _ :: past => lastSave id past

/-- The last save of the row asked to remember the password. -/
def Asked (id : String) (past : List RepositoryCall) : Prop :=
  ∃ profile, lastSave id past = some (profile, true) ∧ profile.HasPassword

/-- Since the last `clear` a save stored a password under a key that belongs to a host: a
save for the host, or one that asked to remember and whose row has the key for a name. -/
def StoredForHost (lowercase : String → String) (key : String) (past : List RepositoryCall) :
    Prop :=
  ∃ profile rememberPassword answers,
    .save profile rememberPassword answers ∈ past.takeWhile (fun call => !call.isClear) ∧
      profile.HasPassword ∧
      (hostCredKey lowercase profile.host profile.port (profile.username.getD "") = key ∨
        rememberPassword = true ∧ profile.id = key)

variable {lowercase : String → String} {key : String} {past : List RepositoryCall}

theorem StoredForHost.cons (h : StoredForHost lowercase key past) {call : RepositoryCall}
    (hcall : call.isClear = false) : StoredForHost lowercase key (call :: past) := by
  obtain ⟨profile, rememberPassword, answers, hmem, hstored⟩ := h
  refine ⟨profile, rememberPassword, answers, ?_, hstored⟩
  rw [takeWhile_cons_of_pos (by rw [hcall]; rfl)]
  exact mem_cons_of_mem _ hmem

theorem storedForHost_save {profile : ConnectionProfile} {rememberPassword : Bool}
    (answers : SaveAnswers) (hpass : profile.HasPassword)
    (hkey : hostCredKey lowercase profile.host profile.port (profile.username.getD "") = key ∨
      rememberPassword = true ∧ profile.id = key) :
    StoredForHost lowercase key (.save profile rememberPassword answers :: past) := by
  refine ⟨profile, rememberPassword, answers, ?_, hpass, hkey⟩
  rw [takeWhile_cons_of_pos rfl]
  exact mem_cons_self

end RepositoryCall

namespace SessionsRepository

open CredentialVault RepositoryCall

variable {lowercase : String → String} {r : SessionsRepository}

/-! ## What a call does to the vault -/

theorem vault_put {outcome : PutOutcome} {id plaintext key : String}
    (h : (r.put outcome id plaintext).vault key ≠ none) : key = id ∨ r.vault key ≠ none := by
  rw [put] at h
  split at h
  · by_cases hkey : key = id
    · exact inl hkey
    · have hold : Function.update r.vault id (some plaintext) key = r.vault key :=
        Function.update_of_ne hkey ..
      exact inr fun hnone => h (hold.trans hnone)
  · exact inr h

theorem vault_forget {id key : String} (h : (r.forget id).vault key ≠ none) :
    r.vault key ≠ none := by
  by_cases hkey : key = id
  · subst hkey
    exact absurd (Function.update_self ..) h
  · have hold : (r.forget id).vault key = r.vault key := Function.update_of_ne hkey ..
    rwa [hold] at h

@[simp] theorem rows_put (outcome : PutOutcome) (id plaintext : String) :
    (r.put outcome id plaintext).rows = r.rows := by
  rw [put]
  split <;> rfl

/-- A key is written by a save because of the row, of the host, or of the last connection. -/
theorem vault_saveCredentials {profile : ConnectionProfile} {shouldRemember : Bool}
    {answers : SaveAnswers} {key : String} (husername : key ≠ lastUsernameKey)
    (hpassword : key ≠ lastPasswordKey)
    (h : (r.saveCredentials lowercase profile shouldRemember answers).vault key ≠ none) :
    (shouldRemember = true ∧ key = profile.id) ∨
      (profile.HasPassword ∧
        key = hostCredKey lowercase profile.host profile.port (profile.username.getD "")) ∨
      r.vault key ≠ none := by
  rw [saveCredentials] at h
  generalize hr₁ : (if shouldRemember = true then
    r.put answers.row profile.id (profile.password.getD "") else r) = r₁ at h
  generalize hr₂ : (if profile.HasPassword then
    r₁.put answers.host
      (hostCredKey lowercase profile.host profile.port (profile.username.getD ""))
      (profile.password.getD "") else r₁) = r₂ at h
  generalize hr₃ : (match profile.username.filter fun u => !isBlank u with
    | some u => r₂.put answers.lastUsername lastUsernameKey u
    | none => r₂) = r₃ at h
  have h₃ : r₃.vault key ≠ none := by
    split at h
    · exact (vault_put h).resolve_left hpassword
    · exact h
  have h₂ : r₂.vault key ≠ none := by
    rw [← hr₃] at h₃
    split at h₃
    · exact (vault_put h₃).resolve_left husername
    · exact h₃
  rw [← hr₂] at h₂
  have h₁ : profile.HasPassword ∧
      key = hostCredKey lowercase profile.host profile.port (profile.username.getD "") ∨
      r₁.vault key ≠ none := by
    split at h₂
    · rename_i hpass
      exact (vault_put h₂).imp (fun hkey => ⟨hpass, hkey⟩) (fun h => h)
    · exact inr h₂
  rcases h₁ with hhost | h₁
  · exact inr (inl hhost)
  · rw [← hr₁] at h₁
    split at h₁
    · rename_i hremember
      rcases vault_put h₁ with hkey | hold
      · exact inl ⟨hremember, hkey⟩
      · exact inr (inr hold)
    · exact inr (inr h₁)

@[simp] theorem rows_saveCredentials (profile : ConnectionProfile) (shouldRemember : Bool)
    (answers : SaveAnswers) :
    (r.saveCredentials lowercase profile shouldRemember answers).rows = r.rows := by
  rw [saveCredentials]
  split
  · rw [rows_put]
    split <;> split <;> simp
  · split <;> split <;> simp

/-! ## What the rows and the vault say about the past -/

/-- Every row is the one of its last save, with the flag only if that save asked for it, and
nothing is stored under the key of a host but what a save since the last `clear` put there. -/
structure Inv (lowercase : String → String) (past : List RepositoryCall)
    (r : SessionsRepository) : Prop where
  rows : ∀ e ∈ r.rows, ∃ profile rememberPassword,
    lastSave e.id past = some (profile, rememberPassword) ∧
      (e.rememberPassword = true → rememberPassword = true ∧ profile.HasPassword) ∧
      e.host = profile.host ∧ e.port = profile.port ∧ e.username = profile.username
  vault : ∀ key, key ≠ lastUsernameKey → key ≠ lastPasswordKey → r.vault key ≠ none →
    StoredForHost lowercase key past

variable {past : List RepositoryCall}

theorem inv_initial : Inv lowercase [] {} :=
  ⟨fun _ he => absurd he not_mem_nil, fun _ _ _ h => absurd rfl h⟩

/-- What a save leaves in the vault under the key of a host was there or is stored now. -/
theorem stored_save (h : Inv lowercase past r) {profile : ConnectionProfile}
    {rememberPassword : Bool} {answers : SaveAnswers} {key : String}
    (husername : key ≠ lastUsernameKey) (hpassword : key ≠ lastPasswordKey)
    (hkey : (r.saveCredentials lowercase profile (rememberPassword && profile.HasPassword)
      answers).vault key ≠ none) :
    StoredForHost lowercase key (.save profile rememberPassword answers :: past) := by
  rcases vault_saveCredentials husername hpassword hkey with
    ⟨hremember, rfl⟩ | ⟨hpass, rfl⟩ | hold
  · rw [Bool.and_eq_true, decide_eq_true_iff] at hremember
    exact storedForHost_save answers hremember.2 (inr ⟨hremember.1, rfl⟩)
  · exact storedForHost_save answers hpass (inl rfl)
  · exact (h.vault key husername hpassword hold).cons rfl

/-- A save whose row is written. -/
theorem inv_save_upsert (h : Inv lowercase past r) (profile : ConnectionProfile)
    (rememberPassword : Bool) {answers : SaveAnswers} (hupsert : answers.upsert = true) :
    Inv lowercase (.save profile rememberPassword answers :: past)
      (r.save lowercase profile rememberPassword answers).1 := by
  rw [save, if_pos hupsert]
  refine ⟨?_, ?_⟩
  · intro e he
    have hrows : e ∈ r.rows.filter (·.id ≠ profile.id) ∨
        e = r.savedRow profile (rememberPassword && profile.HasPassword &&
          (rememberPassword && profile.HasPassword && answers.row.saved)) answers := by
      have hupserted : e ∈ (upsert (r.saveCredentials lowercase profile
          (rememberPassword && profile.HasPassword) answers) (r.savedRow profile
            (rememberPassword && profile.HasPassword &&
              (rememberPassword && profile.HasPassword && answers.row.saved)) answers)).rows := by
        revert he
        split
        · exact fun he => he
        · exact fun he => he
      rw [upsert, rows_saveCredentials] at hupserted
      rcases mem_append.1 hupserted with hold | hnew
      · exact inl hold
      · exact inr (mem_singleton.1 hnew)
    rcases hrows with hold | rfl
    · obtain ⟨hmem, hne⟩ := mem_filter.1 hold
      have hid : ¬ (profile.id = e.id ∧ answers.upsert = true) := by
        rintro ⟨hid, -⟩
        exact absurd hid.symm (of_decide_eq_true hne)
      rw [lastSave, if_neg hid]
      exact h.rows e hmem
    · refine ⟨profile, rememberPassword, if_pos ⟨rfl, hupsert⟩, ?_, rfl, rfl, rfl⟩
      intro hremember
      have hboth := (Bool.and_eq_true .. ▸ hremember).1
      rw [Bool.and_eq_true, decide_eq_true_iff] at hboth
      exact hboth
  · intro key husername hpassword hkey
    apply stored_save h husername hpassword
    revert hkey
    split
    · exact fun hkey => hkey
    · exact vault_forget

/-- A save that throws: the row keeps what it was, and the vault is rolled back. -/
theorem inv_save_throws (h : Inv lowercase past r) (profile : ConnectionProfile)
    (rememberPassword : Bool) {answers : SaveAnswers} (hupsert : ¬ answers.upsert = true) :
    Inv lowercase (.save profile rememberPassword answers :: past)
      (r.save lowercase profile rememberPassword answers).1 := by
  rw [save, if_neg hupsert]
  refine ⟨?_, ?_⟩
  · intro e he
    have hold : e ∈ r.rows := by
      revert he
      split
      · split
        · rw [rows_put, rows_saveCredentials]
          exact fun he => he
        · rw [forget, rows_saveCredentials]
          exact fun he => he
      · rw [rows_saveCredentials]
        exact fun he => he
    have hid : ¬ (profile.id = e.id ∧ answers.upsert = true) := fun hid => hupsert hid.2
    rw [lastSave, if_neg hid]
    exact h.rows e hold
  · intro key husername hpassword hkey
    have hcases : (r.saveCredentials lowercase profile
        (rememberPassword && profile.HasPassword) answers).vault key ≠ none ∨
        r.vault key ≠ none := by
      revert hkey
      split
      · rename_i hremember
        have hshould := (Bool.and_eq_true .. ▸ hremember).1
        rw [if_pos hshould]
        split
        · rename_i old hold
          intro hkey
          rcases vault_put hkey with rfl | hkey
          · rw [hold]
            exact inr nofun
          · exact inl hkey
        · exact fun hkey => inl (vault_forget hkey)
      · exact fun hkey => inl hkey
    rcases hcases with hkey | hold
    · exact stored_save h husername hpassword hkey
    · exact (h.vault key husername hpassword hold).cons rfl

theorem inv_touch (h : Inv lowercase past r) (profile : ConnectionProfile) (now : ℕ) :
    Inv lowercase (.touch profile now :: past) (r.touch profile now) := by
  refine ⟨?_, fun key husername hpassword hkey => ?_⟩
  · intro e he
    obtain ⟨e', he', rfl⟩ := mem_map.1 he
    obtain ⟨saved, remember, hlast, hrow⟩ := h.rows e' he'
    refine ⟨saved, remember, ?_⟩
    split
    · exact ⟨hlast, hrow⟩
    · exact ⟨hlast, hrow⟩
  · exact (h.vault key husername hpassword hkey).cons rfl

theorem inv_remove (h : Inv lowercase past r) (id : String) :
    Inv lowercase (.remove id :: past) (r.remove id) := by
  have hsub : ∀ e ∈ (r.remove id).rows, e ∈ r.rows := by
    intro e he
    rw [remove] at he
    split at he
    · exact mem_of_mem_filter he
    · exact he
  refine ⟨fun e he => h.rows e (hsub e he), fun key husername hpassword hkey => ?_⟩
  have hold : r.vault key ≠ none := by
    have hforget := vault_forget hkey
    split at hforget
    · exact hforget
    · exact hforget
  exact (h.vault key husername hpassword hold).cons rfl

/-- **The step lemma.** -/
theorem inv_step {r' : SessionsRepository} {call : RepositoryCall} (h : Inv lowercase past r)
    (hstep : step lowercase r call = some r') : Inv lowercase (call :: past) r' := by
  cases call with
  | save profile rememberPassword answers =>
    obtain rfl := Option.some.inj hstep
    by_cases hupsert : answers.upsert = true
    · exact inv_save_upsert h profile rememberPassword hupsert
    · exact inv_save_throws h profile rememberPassword hupsert
  | touch profile now =>
    obtain rfl := Option.some.inj hstep
    exact inv_touch h profile now
  | remove id =>
    obtain rfl := Option.some.inj hstep
    exact inv_remove h id
  | clear =>
    obtain rfl := Option.some.inj hstep
    exact ⟨fun _ he => absurd he not_mem_nil, fun _ _ _ hkey => absurd rfl hkey⟩

theorem inv_of_run {calls : List RepositoryCall}
    (h : run (step lowercase) {} calls = some r) : Inv lowercase calls.reverse r :=
  run_induct_past (fun _ _ _ _ hinv hstep => inv_step hinv hstep) inv_initial h

/-! ## Whose password comes back -/

theorem lastSave_append {id : String} {past past' : List RepositoryCall}
    {saved : ConnectionProfile × Bool} (h : lastSave id past = some saved) :
    lastSave id (past ++ past') = some saved := by
  induction past with
  | nil => cases h
  | cons call past ih =>
    cases call with
    | save profile rememberPassword answers =>
      rw [lastSave] at h
      rw [cons_append, lastSave]
      split
      · rename_i hid
        rwa [if_pos hid] at h
      · rename_i hid
        rw [if_neg hid] at h
        exact ih h
    | touch profile now => exact ih h
    | remove id => exact ih h
    | clear => exact ih h

theorem mem_favorites {q : ConnectionProfile} (hq : q ∈ r.favorites lowercase) :
    ∃ e ∈ r.rows, q = r.toProfile lowercase e := by
  obtain ⟨e, he, rfl⟩ := mem_map.1 hq
  exact ⟨e, mem_mergeSort.1 he, rfl⟩

theorem favorites_of_rows_singleton {e : FavoriteEntity} (h : r.rows = [e]) :
    r.favorites lowercase = [r.toProfile lowercase e] := by
  rw [favorites, h, mergeSort_singleton]
  rfl

theorem password_toProfile {e : FavoriteEntity}
    (hpassword : (r.toProfile lowercase e).password ≠ none) :
    e.rememberPassword = true ∨
      r.vault (hostCredKey lowercase e.host e.port (e.username.getD "")) ≠ none := by
  cases hremember : e.rememberPassword with
  | true => exact inl rfl
  | false =>
    refine inr ?_
    rw [toProfile, hremember] at hpassword
    exact hpassword

/-- **A password comes back only if it was asked for or stored for the host.**  A row of the
list has one only if its last save asked to remember it, or some save since the last `clear`
stored one for its host; and of a row that was removed and saved again without a password
only the second can be. -/
theorem favorites_password {calls : List RepositoryCall} {r : SessionsRepository}
    (h : run (step lowercase) {} calls = some r) {q : ConnectionProfile}
    (hq : q ∈ r.favorites lowercase) (hpassword : q.password ≠ none) :
    (Asked q.id calls.reverse ∨
      StoredForHost lowercase (hostCredKey lowercase q.host q.port (q.username.getD ""))
        calls.reverse) ∧
    ∀ before after profile rememberPassword,
      calls = before ++ .remove q.id :: after →
      lastSave q.id after.reverse = some (profile, rememberPassword) → ¬ profile.HasPassword →
      StoredForHost lowercase (hostCredKey lowercase q.host q.port (q.username.getD ""))
        calls.reverse := by
  have hinv := inv_of_run h
  obtain ⟨e, he, rfl⟩ := mem_favorites hq
  obtain ⟨saved, remember, hlast, hflag, -⟩ := hinv.rows e he
  have hkeys := hostCredKey_ne lowercase e.host e.port (e.username.getD "")
  have hcases : Asked e.id calls.reverse ∨
      StoredForHost lowercase (hostCredKey lowercase e.host e.port (e.username.getD ""))
        calls.reverse := by
    rcases password_toProfile hpassword with hremember | hstored
    · obtain ⟨rfl, hpass⟩ := hflag hremember
      exact inl ⟨saved, hlast, hpass⟩
    · exact inr (hinv.vault _ hkeys.1 hkeys.2 hstored)
  refine ⟨hcases, ?_⟩
  rintro before after profile rememberPassword hcalls hsaved hpass
  have hreverse : calls.reverse = after.reverse ++ .remove e.id :: before.reverse := by
    rw [hcalls, reverse_append, reverse_cons, append_assoc]
    rfl
  rcases hcases with ⟨asked, hasked, haskedPass⟩ | hstored
  · -- the last save is the one behind the removal, which had no password
    have hlastSave : lastSave e.id calls.reverse = some (profile, rememberPassword) := by
      rw [hreverse]
      exact lastSave_append hsaved
    obtain rfl := congrArg Prod.fst (Option.some.inj (hlastSave.symm.trans hasked))
    exact absurd haskedPass hpass
  · exact hstored

/-- Lower case of ASCII. -/
def asciiLowercase (s : String) : String := String.ofList (s.toList.map Char.toLower)

/-- A connection with a password, and the same without. -/
def typedProfile : ConnectionProfile := { host := "PC", password := some "rahasia" }

/-- A connection without a password. -/
def untypedProfile : ConnectionProfile := { host := "PC" }

/-- A row with a password is saved, removed and saved again without one. -/
theorem favorites_password_sample :
    let calls : List RepositoryCall :=
      [.save typedProfile true {}, .remove "PC:3389", .save untypedProfile false {}]
    ∃ r, run (step asciiLowercase) {} calls = some r ∧
      ∃ q ∈ r.favorites asciiLowercase, q.password ≠ none ∧
        StoredForHost asciiLowercase
          (hostCredKey asciiLowercase q.host q.port (q.username.getD "")) calls.reverse := by
  intro calls
  obtain ⟨r, hr, e, hrows, hid, hpassword⟩ : ∃ r,
      run (step asciiLowercase) {} calls = some r ∧ ∃ e, r.rows = [e] ∧ e.id = "PC:3389" ∧
        (r.toProfile asciiLowercase e).password ≠ none :=
    ⟨_, rfl, _, rfl, rfl, by decide⟩
  have hq : r.toProfile asciiLowercase e ∈ r.favorites asciiLowercase := by
    rw [favorites_of_rows_singleton hrows]
    exact mem_singleton_self _
  have hname : (r.toProfile asciiLowercase e).id = "PC:3389" := hid
  refine ⟨r, hr, _, hq, hpassword, (favorites_password hr hq hpassword).2
    [.save typedProfile true {}] [.save untypedProfile false {}] untypedProfile false ?_ ?_ ?_⟩
  · rw [hname]
    rfl
  · rw [hname]
    rfl
  · decide

/-- **A password that was not to be remembered comes back**, also behind `remove`. -/
theorem forgotten_password_returns :
    (∃ r, run (step asciiLowercase) {} [.save typedProfile false {}] = some r ∧
      (r.favorites asciiLowercase).map ConnectionProfile.password = [some "rahasia"]) ∧
    ∃ r, run (step asciiLowercase) {} [.save typedProfile true {}, .remove "PC:3389",
        .save untypedProfile false {}] = some r ∧
      (r.favorites asciiLowercase).map ConnectionProfile.password = [some "rahasia"] := by
  constructor
  · refine ⟨_, rfl, ?_⟩
    rw [favorites_of_rows_singleton rfl]
    decide
  · refine ⟨_, rfl, ?_⟩
    rw [favorites_of_rows_singleton rfl]
    decide

end SessionsRepository
