import Wheespa.Accounts

/-!
# Authentication

`authenticate` puts the username between double quotes, where SQLite takes it for a column of
`Registered` when it denotes one and for a string otherwise. `authenticationExact_iff` is the main
result: for a username that a request can carry, authentication and the two logins agree with the
rows of `Registered` on every database exactly when the username denotes no column.
-/

namespace Wheespa

open Sql

/-- A text that `getOutput` can return. -/
def IsDigest (pass : Str) : Prop :=
  pass.length = 40 ∧ ∀ c ∈ pass, isHexDigit c = true

/-- `Registered` has a row with the username and the digest. -/
def HasAccount (database : Database) (user pass : Str) : Prop :=
  ∃ account ∈ accounts database "Registered", account.user = user ∧ account.pass = pass

/-- Authentication of the username is exact: on every database, with every digest, `authenticate`
answers whether there is such a row, and a login of either kind succeeds only where there is one
with the digest of the password. -/
structure AuthenticationExact (engine : Engine) (sha1 : Sha1) (user : Str) : Prop where
  authenticate : ∀ self : ParseRequest, Prepared self.wDb.database → ∀ pass, IsDigest pass →
    ((self.authenticate engine user pass).1 = true ↔ HasAccount self.wDb.database user pass)
  login : ∀ self : ParseRequest, Prepared self.wDb.database →
    self.param "username".toList = some user → (self.login engine sha1).1 = true →
    ∃ password, self.param "password".toList = some password ∧
      HasAccount self.wDb.database user (getOutput sha1 password)
  adminLogin : ∀ self : ParseRequest, Prepared self.wDb.database →
    self.param "username".toList = some user →
    (self.adminLogin engine sha1).map Prod.fst = some true →
    ∃ password, self.param "password".toList = some password ∧
      HasAccount self.wDb.database user (getOutput sha1 password)

/-- What `login` returns. -/
theorem login_eq_true {engine : Engine} {sha1 : Sha1} {self : ParseRequest} {user : Str}
    (huser : self.param "username".toList = some user) (h : (self.login engine sha1).1 = true) :
    ∃ password, self.param "password".toList = some password ∧
      (self.authenticate engine user (getOutput sha1 password)).1 = true := by
  rcases self.login_cases engine sha1 with ⟨username, password, husername, hpassword, hlogin⟩ |
    ⟨text, hlogin⟩
  · obtain rfl := Option.some.inj (huser.symm.trans husername)
    rw [hlogin] at h
    exact ⟨password, hpassword, h⟩
  · simp [hlogin] at h

/-- `adminLogin` succeeds only where `login` does. -/
theorem login_of_adminLogin {engine : Engine} {sha1 : Sha1} {self : ParseRequest}
    (h : (self.adminLogin engine sha1).map Prod.fst = some true) :
    (self.login engine sha1).1 = true := by
  cases hlogin : (self.login engine sha1).1 with
  | true => rfl
  | false => simp [ParseRequest.adminLogin, hlogin] at h

/-- An account whose name, digest and other fields coincide as far as they can. -/
def uniformAccount (id : Int) (text pass : Str) : Account :=
  ⟨id, text, pass, text, some text⟩

/-- A digest of forty equal digits. -/
def plainDigest : Str :=
  List.replicate 40 'A'

/-- Two accounts with the same digest: the fields of the first have the text of its identity, and
those of the second the text of the digest. -/
def ambiguousDatabase : Database :=
  Database.set (Database.set (Database.set (fun _ => none)
    "Administrators".toList (.empty administratorSchema))
    "PendingRegistrations".toList (.empty accountSchema))
    "Registered".toList ⟨accountSchema, [(uniformAccount 1 ['1'] plainDigest).toRow,
      (uniformAccount 2 plainDigest plainDigest).toRow], by decide +kernel⟩

theorem prepared_ambiguousDatabase : Prepared ambiguousDatabase :=
  ⟨⟨_, rfl, rfl⟩, ⟨_, rfl, rfl⟩, ⟨_, rfl, rfl⟩⟩

theorem accounts_ambiguousDatabase : accounts ambiguousDatabase "Registered" =
    [uniformAccount 1 ['1'] plainDigest, uniformAccount 2 plainDigest plainDigest] := by
  rfl

/-- A request on a database. -/
def requestOn (database : Database) : ParseRequest :=
  .new 0 [] [] .empty database 0 false

/-- A username that denotes a column is accepted with the digest of the ambiguous accounts:
for each column one of them has its own name in that column. -/
theorem authenticate_column (engine : Engine) {user : Str} (huser : IsValue user)
    (hcolumn : DenotesColumn user) :
    ((requestOn ambiguousDatabase).authenticate engine user plainDigest).1 = true := by
  have hnumber : engine.numericOf ['1'] = some 1 := engine.numericOf_toString 1 (by decide)
  have hdb : Prepared (requestOn ambiguousDatabase).wDb.database := prepared_ambiguousDatabase
  rw [authenticate_iff engine hdb huser (List.all_eq_true.mp (by decide))]
  obtain ⟨index, hindex⟩ := Option.isSome_iff_exists.mp hcolumn
  show ∃ account ∈ accounts ambiguousDatabase "Registered", _
  rw [accounts_ambiguousDatabase]
  obtain rfl | rfl | rfl | rfl | rfl := lookup?_accountSchema hindex
  · exact ⟨_, .head _, by simp [Account.isNamed, hindex, uniformAccount, hnumber], rfl⟩
  · exact ⟨_, .head _, by simp [Account.isNamed, hindex], rfl⟩
  · exact ⟨_, .tail _ (.head _), by simp [Account.isNamed, hindex, uniformAccount], rfl⟩
  · exact ⟨_, .head _, by simp [Account.isNamed, hindex, uniformAccount], rfl⟩
  · exact ⟨_, .head _, by simp [Account.isNamed, hindex, uniformAccount], rfl⟩

/-- No account of the ambiguous database is named like a column. -/
theorem not_hasAccount_column {user : Str} (hcolumn : DenotesColumn user) (pass : Str) :
    ¬ HasAccount ambiguousDatabase user pass := by
  rintro ⟨account, haccount, rfl, rfl⟩
  rw [accounts_ambiguousDatabase] at haccount
  have hnone : accountSchema.lookup? account.user = none := by
    obtain rfl | rfl : account = _ ∨ account = _ := by simpa using haccount
    · exact lookup?_of_hex (List.all_eq_true.mp (by decide))
    · exact lookup?_of_hex (List.all_eq_true.mp (by decide))
  simp [DenotesColumn, hnone] at hcolumn

/-- Authentication of a username is exact exactly when the username denotes no column. -/
theorem authenticationExact_iff (engine : Engine) (sha1 : Sha1) (user : RequestValue) :
    AuthenticationExact engine sha1 user.1 ↔ ¬ DenotesColumn user.1 := by
  obtain ⟨user, huser⟩ := user
  constructor
  · intro h hcolumn
    have hauth := authenticate_column engine huser hcolumn
    rw [h.authenticate (requestOn ambiguousDatabase) prepared_ambiguousDatabase plainDigest
      ⟨rfl, List.all_eq_true.mp (by decide)⟩] at hauth
    exact not_hasAccount_column hcolumn plainDigest hauth
  · intro hcolumn
    have hindex : accountSchema.lookup? user = none := by simpa [DenotesColumn] using hcolumn
    have hexact (self : ParseRequest) (hdb : Prepared self.wDb.database) {pass : Str}
        (hpass : ∀ c ∈ pass, isHexDigit c = true) :
        (self.authenticate engine user pass).1 = true ↔
          HasAccount self.wDb.database user pass := by
      rw [authenticate_iff engine hdb huser hpass]
      simp [HasAccount, Account.isNamed, hindex]
    have hlogin (self : ParseRequest) (hdb : Prepared self.wDb.database)
        (hname : self.param "username".toList = some user)
        (hsuccess : (self.login engine sha1).1 = true) :
        ∃ password, self.param "password".toList = some password ∧
          HasAccount self.wDb.database user (getOutput sha1 password) := by
      obtain ⟨password, hpassword, hauth⟩ := login_eq_true hname hsuccess
      exact ⟨password, hpassword, (hexact self hdb (getOutput_spec sha1 password).2).mp hauth⟩
    exact ⟨fun self hdb pass hpass => hexact self hdb hpass.2, hlogin,
      fun self hdb hname hsuccess => hlogin self hdb hname (login_of_adminLogin hsuccess)⟩

/-- With the digest of an account, `authenticate` accepts the username `W_USER`, which no account
has. -/
theorem authenticate_accepts_column :
    ((requestOn ambiguousDatabase).authenticate .plain "W_USER".toList plainDigest).1 = true ∧
    ¬ HasAccount ambiguousDatabase "W_USER".toList plainDigest :=
  ⟨authenticate_column _ (by decide) (by decide), not_hasAccount_column (by decide) _⟩

end Wheespa
