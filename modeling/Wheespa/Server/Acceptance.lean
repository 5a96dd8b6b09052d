import Mathlib.Data.List.Perm.Basic
import Wheespa.Server.AdminCommands

/-!
# Accepting a registration

What an administrator's `ACCEPT_REGISTRATION` is for is that the pending account of an identity
moves to `Registered`. The row that it copies has no address, which `Registered` requires, so the
first of its two statements fails and the second is not run. `accepted_iff` says that the command
does what it is for exactly where there is nothing to accept.
-/

namespace Wheespa

open Sql

/-- The identity is that of a pending account whose name is not in `Registered`. -/
def Acceptable (database : Database) (id : Int) : Prop :=
  ∃ account ∈ accounts database "PendingRegistrations",
    account.id = id ∧ account.user ∉ users database "Registered"

/-- `Acceptable` is decidable by a search of the pending accounts. -/
instance decidableAcceptable (database : Database) (id : Int) :
    Decidable (Acceptable database id) :=
  inferInstanceAs (Decidable (∃ account ∈ accounts database "PendingRegistrations", _))

/-- What accepting a registration is for: an acceptable account moves to `Registered` and nothing
else changes, and in every other case both tables are left as they were. -/
structure Accepted (before after : Database) (id : Int) : Prop where
  moved : ∀ account ∈ accounts before "PendingRegistrations", account.id = id →
    account.user ∉ users before "Registered" →
    (∃ added, added.user = account.user ∧ added.pass = account.pass ∧
      (accounts after "Registered").Perm (added :: accounts before "Registered")) ∧
    (accounts before "PendingRegistrations").Perm
      (account :: accounts after "PendingRegistrations") ∧
    ∀ name, fold name ≠ fold "Registered".toList →
      fold name ≠ fold "PendingRegistrations".toList → after.table? name = before.table? name
  kept : ¬ Acceptable before id →
    after.table? "Registered".toList = before.table? "Registered".toList ∧
    after.table? "PendingRegistrations".toList = before.table? "PendingRegistrations".toList

/-- A database that stays as it is has accepted an identity exactly where it is not acceptable. -/
theorem accepted_self_iff {database : Database} {id : Int} :
    Accepted database database id ↔ ¬ Acceptable database id := by
  constructor
  · rintro h ⟨account, haccount, hid, huser⟩
    obtain ⟨⟨added, _, _, hperm⟩, _⟩ := h.moved account haccount hid huser
    have hlength := hperm.length_eq
    rw [List.length_cons] at hlength
    omega
  · intro h
    exact ⟨fun account haccount hid huser => absurd ⟨account, haccount, hid, huser⟩ h,
      fun _ => ⟨rfl, rfl⟩⟩

/-- An administrator's `ACCEPT_REGISTRATION` leaves the server as it is. -/
theorem react_acceptRegistration (engine : Engine) (sha1 : Sha1) {server : Server}
    (hdb : Prepared server.database) {path : Path} {user : WheespaConnected}
    (hnode : server.tree.node.get? path = some (user, false)) (hadmin : user.isAdmin = true)
    {recvd : Str} {groups : Regex.Groups Char}
    (hmatch : messageRegex.fullMatch recvd = some groups)
    (htype : groups 1 = some "WHEESPA_ADMINISTRATE".toList)
    (hcommand : groups 2 = some "ACCEPT_REGISTRATION".toList) (connType : Option ConnectType)
    (adminCmd : Option AdminCommand) (memory : Int → Str) (time : Int) :
    ∃ reaction, server.react engine sha1
        (.message path recvd connType adminCmd memory time) = some reaction ∧
      reaction.server = server := by
  have hasks : Asks recvd .acceptRegistration ((groups 4).getD []) := by
    refine ⟨groups, hmatch, htype, ?_, rfl⟩
    rw [hcommand]
    decide
  exact hasks.react_prepared rfl engine sha1 hdb ⟨user, hnode, hadmin⟩ connType adminCmd memory time

/-- On the tables that `prepareDatabase` creates, an administrator's `ACCEPT_REGISTRATION` does what
it is for exactly where the identity sent is not that of a pending account whose name is not in
`Registered`. -/
theorem accepted_iff (engine : Engine) (sha1 : Sha1) {server : Server}
    (hdb : Prepared server.database) {path : Path} {user : WheespaConnected}
    (hnode : server.tree.node.get? path = some (user, false)) (hadmin : user.isAdmin = true)
    {recvd : Str} {groups : Regex.Groups Char}
    (hmatch : messageRegex.fullMatch recvd = some groups)
    (htype : groups 1 = some "WHEESPA_ADMINISTRATE".toList)
    (hcommand : groups 2 = some "ACCEPT_REGISTRATION".toList) (connType : Option ConnectType)
    (adminCmd : Option AdminCommand) (memory : Int → Str) (time : Int) :
    ∃ reaction, server.react engine sha1
        (.message path recvd connType adminCmd memory time) = some reaction ∧
      (Accepted server.database reaction.server.database
          (Nat.ofDigitChars 10 ((groups 4).getD []) 0) ↔
        ¬ Acceptable server.database (Nat.ofDigitChars 10 ((groups 4).getD []) 0)) := by
  obtain ⟨reaction, hreact, hserver⟩ := react_acceptRegistration engine sha1 hdb hnode hadmin
    hmatch htype hcommand connType adminCmd memory time
  refine ⟨reaction, hreact, ?_⟩
  rw [hserver]
  exact accepted_self_iff

/-- A pending account. -/
def bob : Account :=
  ⟨1, "bob".toList, "ABABAB".toList, "b@x.y".toList, some []⟩

/-- The tables that `prepareDatabase` creates, with one pending account. -/
def bobPending : Database := fun name =>
  if name = fold "Registered".toList then some (.empty accountSchema)
  else if name = fold "PendingRegistrations".toList then
    some ⟨accountSchema, [bob.toRow], .singleton (by decide)⟩
  else if name = fold "Administrators".toList then some (.empty administratorSchema)
  else none

/-- A server on this database, with an administrator logged in. -/
def bobServer : Server :=
  ⟨⟨.new ⟨"root".toList, some 0, true, true, []⟩, []⟩, bobPending, 0, false⟩

/-- The database has the tables that `prepareDatabase` creates. -/
theorem prepared_bobPending : Prepared bobPending :=
  ⟨⟨_, rfl, rfl⟩, ⟨_, rfl, rfl⟩, ⟨_, rfl, rfl⟩⟩

/-- The groups of the command for an identity of one digit. -/
theorem exists_groups (digit : Char)
    (h : (messageRegex.fullMatch ("WHEESPA_ADMINISTRATE::ACCEPT_REGISTRATION:::x::::".toList ++
      [digit])).map (fun groups => (groups 1, groups 2, groups 4)) =
      some (some "WHEESPA_ADMINISTRATE".toList, some "ACCEPT_REGISTRATION".toList,
        some [digit])) :
    ∃ groups, messageRegex.fullMatch ("WHEESPA_ADMINISTRATE::ACCEPT_REGISTRATION:::x::::".toList ++
        [digit]) = some groups ∧ groups 1 = some "WHEESPA_ADMINISTRATE".toList ∧
      groups 2 = some "ACCEPT_REGISTRATION".toList ∧ groups 4 = some [digit] := by
  obtain ⟨groups, hmatch, hgroups⟩ := Option.map_eq_some_iff.mp h
  simp only [Prod.mk.injEq] at hgroups
  exact ⟨groups, hmatch, hgroups⟩

/-- Accepting an identity that no pending account has leaves everything as it is. -/
theorem accepted_nobody : ∃ reaction, bobServer.react .plain constantSha1
      (.message [] "WHEESPA_ADMINISTRATE::ACCEPT_REGISTRATION:::x::::2".toList none none
        (fun _ => []) 0) = some reaction ∧
    Accepted bobPending reaction.server.database 2 := by
  obtain ⟨groups, hmatch, htype, hcommand, hdigits⟩ := exists_groups '2' (by
    repeat rw [String.toList_ofList]
    decide +kernel)
  obtain ⟨reaction, hreact, hiff⟩ := @accepted_iff .plain constantSha1 bobServer
    prepared_bobPending [] _ rfl rfl _ groups hmatch htype hcommand none none (fun _ => []) 0
  rw [hdigits] at hiff
  exact ⟨reaction, hreact, hiff.mpr (by decide +kernel)⟩

/-- Accepting the pending account does not move it. -/
theorem not_accepted_bob : ∃ reaction, bobServer.react .plain constantSha1
      (.message [] "WHEESPA_ADMINISTRATE::ACCEPT_REGISTRATION:::x::::1".toList none none
        (fun _ => []) 0) = some reaction ∧
    Acceptable bobPending 1 ∧ ¬ Accepted bobPending reaction.server.database 1 := by
  obtain ⟨groups, hmatch, htype, hcommand, _⟩ := exists_groups '1' (by
    repeat rw [String.toList_ofList]
    decide +kernel)
  obtain ⟨reaction, hreact, hserver⟩ := @react_acceptRegistration .plain constantSha1 bobServer
    prepared_bobPending [] _ rfl rfl _ groups hmatch htype hcommand none none (fun _ => []) 0
  have hacceptable : Acceptable bobPending 1 := by decide +kernel
  refine ⟨reaction, hreact, hacceptable, ?_⟩
  rw [hserver]
  exact fun haccepted => accepted_self_iff.mp haccepted hacceptable

end Wheespa
