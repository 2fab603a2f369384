import SessionKeeper.Proofs.Keeper.Reloaded

/-!
# What clearing leaves

Whatever stands in the files and in the backend, a clearing that returns has taken the first
session out of the index, and of an account also the passphrase and the tokens. When every
session is filed under its own subject, the next one in the index is current from then on, and
there is none when the one that was cleared was the only one.
-/
namespace SessionKeeper

section

variable [Runtime]

namespace Secret

/-- That a backend forgets what it is told to forget: it lacks the secret from then on, as long
as the vault's file and the keychain are left alone, and says so when it is asked. -/
structure Backend.Forgets (folder : Path) (place : Location) (secrets : Backend)
    (lacks : Machine → Text → Text → Prop) : Prop where
  same {machine after : Machine} {service account : Text} (h : lacks machine service account)
    (vault : after.under place Vault.fileName = machine.under place Vault.fileName)
    (keychain : after.keychain = machine.keychain) : lacks after service account
  get? {machine : Machine} (g : Ground machine folder place) {service account : Text}
    (h : lacks machine service account) :
    ∃ after, (secrets.get? service account).exec machine = (.ok none, after)
  remove {machine : Machine} (g : Ground machine folder place) (service account : Text) :
    (secrets.remove service account).Yields machine fun _ after => lacks after service account

namespace Vault

variable {machine : Machine} {folder : Path} {place : Location}

/-- That the file of the vault can be read and has no secret of an account. -/
def Lacks (place : Location) (machine : Machine) (service account : Text) : Prop :=
  Record.Legible machine place fileName ∧
    ledgerOf (Record.entriesAt machine place fileName) service account = none

theorem forgets (folder : Path) (place : Location) :
    (Backend.ofVault (.inFolder folder)).Forgets folder place (Lacks place) where
  same h vault _ := by
    refine ⟨h.1.of_under vault, ?_⟩
    rw [Record.entriesAt_of_under vault]
    exact h.2
  get? {machine} g service account h := by
    obtain ⟨after, read, -⟩ := Record.Store.entries_of_legible g isRecordName.file h.1
    have told : ledgerOf (Record.entriesAt machine place fileName) service account = none := h.2
    refine ⟨after, (Action.exec_bind_ok read).trans (congrArg (Prod.mk · _) ?_)⟩
    exact congrArg Except.ok told
  remove {machine} g service account := by
    have file := isRecordName.file
    refine .bind (Record.Store.entries_read g file) fun found between ⟨heq, quiet, legible⟩ => ?_
    have regular := Record.isRegular_entriesAt machine place fileName
    have same := Record.entriesAt_of_under (quiet.under place fileName)
    subst heq
    cases ha : accountsIn (Record.entriesAt machine place fileName) service with
    | none =>
      refine .pure ⟨legible, ?_⟩
      rw [same, ledgerOf, ha]
      rfl
    | some accounts =>
      by_cases there : accounts.has account = true
      · dsimp only
        rw [if_pos there]
        have left := isRegular_remove regular ha account
        have g' := g.of_quiet quiet
        intro _ after he
        have wrote := Record.Store.replace_yields g' file left _ after he
        refine ⟨Record.Store.replace_legible g' file left _ after he, ?_⟩
        rw [wrote.entries, ledgerOf_remove ha account, Ledger.remove_self]
      · dsimp only
        rw [if_neg there]
        refine .pure ⟨legible, ?_⟩
        rw [same, ← ledgerOf_of_absent ha (by simpa using there), Ledger.remove_self]

end Vault

namespace Backend

/-- That the keychain has no secret of an account. -/
def Lacks (machine : Machine) (service account : Text) : Prop :=
  machine.keychain.value? (service, account) = none

omit [Runtime] in
theorem platform_forgets (folder : Path) (place : Location) :
    platform.Forgets folder place Lacks where
  same h _ keychain := by
    rw [Lacks, keychain]
    exact h
  get? g service account h := ⟨_, congrArg (Prod.mk · _) (congrArg Except.ok h)⟩
  remove {machine} g service account := by
    obtain ⟨after, he, -, keychain⟩ := forgetOnPlatform_exec service account machine
    refine .of_exec he fun _ _ => ?_
    rw [Lacks, keychain]
    exact Assoc.value?_remove_self _ _

end Backend

end Secret

/-- That a client keeps to files of its own, and that revoking leaves no tokens of the subject and
the keychain alone. -/
structure OAuth.Client.Erases (folder : Path) (place : Location) (client : OAuth.Client) :
    Prop where
  apart : client.IsApart folder place
  keychain : ∀ subject machine, Ground machine folder place →
    (client.revoke subject).Ends machine fun _ after => after.keychain = machine.keychain
  revoke : ∀ subject machine, Ground machine folder place →
    (client.revoke subject).Yields machine fun _ after =>
      (Record.entriesAt after place Keeper.tokensName).value? subject = none

/-- That making a client leaves the keychain alone and makes one of that kind. -/
structure OAuth.Factory.Erases (factory : OAuth.Factory) (stores : OAuth.Stores) (folder : Path)
    (place : Location) : Prop where
  keychain : (factory stores).Keeps Machine.keychain
  made : ∀ machine client after, Ground machine folder place →
    (factory stores).exec machine = (.ok client, after) → client.Erases folder place

namespace Keeper

variable {keeper : Keeper} {folder : Path} {place : Location} {machine after : Machine}
  {holds : Machine → Secret.Ledger → Prop} {lacks : Machine → Text → Text → Prop} {now : Moment}
  {entries : Assoc Text Json} {scene : Scene}

/-- What a machine has in the index at a time, and that it can be read. -/
structure Reads (folder : Path) (place : Location) (now : Moment) (entries : Assoc Text Json)
    (machine : Machine) : Prop extends Indexes folder place now entries machine where
  legible : Record.Legible machine place indexName

theorem Reads.confined {α : Type} (h : Reads folder place now entries machine)
    {action : Action α} {names : String → Prop} (confined : action.Confined folder place names)
    (other : ¬ names indexName) : Reads folder place now entries (action.exec machine).2 where
  toIndexes := h.toIndexes.confined confined other
  legible := h.legible.of_under ((confined machine h.ground).under other)

theorem Reads.quiet (h : Reads folder place now entries machine) (quiet : machine.Quiet after) :
    Reads folder place now entries after where
  toIndexes := h.toIndexes.quiet quiet
  legible := h.legible.of_under (quiet.under _ _)

/-- An index that can be read tells the current session, the first one that it holds. -/
theorem Reads.current?_exec (own : keeper.StoresIn folder place holds)
    (h : Reads folder place now entries machine) :
    ∃ after, keeper.current?.exec machine = (.ok (Session.listed now entries).head?, after) ∧
      machine.Quiet after := by
  obtain ⟨between, found, quiet⟩ :=
    Record.Store.entries_of_legible h.ground isFileName_indexName h.legible
  rw [h.index, ← own.index] at found
  obtain ⟨after, current, more⟩ := current?_of_entries found
  rw [h.now] at current
  exact ⟨after, current, quiet.trans more⟩

theorem current?_reads (own : keeper.StoresIn folder place holds)
    (h : Indexes folder place now entries machine) :
    keeper.current?.Yields machine fun found after =>
      found = (Session.listed now entries).head? ∧ Reads folder place now entries after := by
  have legible : keeper.current?.Yields machine fun _ _ =>
      Record.Legible machine place indexName := by
    rw [current?, indexed, own.index, bind_assoc]
    refine .bind (P := fun _ after => after = machine)
      (.of_exec (Action.exec_now machine) fun _ _ => rfl) fun _ between hb => ?_
    subst hb
    rw [bind_assoc]
    exact .bind (Record.Store.entries_legible h.ground isFileName_indexName)
      fun _ _ legible _ _ _ => legible
  intro found after he
  have reads : Reads folder place now entries machine := ⟨h, legible found after he⟩
  obtain ⟨last, told, quiet⟩ := reads.current?_exec own
  rw [he] at told
  obtain ⟨same, rfl⟩ := Prod.mk.inj told
  exact ⟨Except.ok.inj same, reads.quiet quiet⟩

/-- That nothing of a session is left but its worker, if it is that of one. -/
def HasForgotten (keeper : Keeper) (place : Location) (lacks : Machine → Text → Text → Prop) :
    Session → Machine → Prop
  | .worker _, _ => True
  | .account s, machine => lacks machine keeper.passphraseService s.subject ∧
      (Record.entriesAt machine place tokensName).value? s.subject = none

/-- What leaves the tokens, the vault and the keychain alone brings nothing back. -/
theorem HasForgotten.of_under (forgets : keeper.secrets.Forgets folder place lacks)
    {session : Session} (h : keeper.HasForgotten place lacks session machine)
    (vault : after.under place Secret.Vault.fileName = machine.under place Secret.Vault.fileName)
    (tokens : after.under place tokensName = machine.under place tokensName)
    (keychain : after.keychain = machine.keychain) :
    keeper.HasForgotten place lacks session after := by
  cases session with
  | worker s => trivial
  | account s =>
    refine ⟨forgets.same h.1 vault keychain, ?_⟩
    rw [Record.entriesAt_of_under tokens]
    exact h.2

/-- Dropping the tokens of a subject, with the index and the want of a passphrase as they were. -/
theorem dropTokens_forgets (own : keeper.StoresIn folder place holds)
    (forgets : keeper.secrets.Forgets folder place lacks)
    (erases : keeper.factory.Erases keeper.stores folder place) {service subject : Text}
    (h : Attended (fun m => Reads folder place now entries m ∧ lacks m service subject)
      (·.Erases folder place) scene) :
    (keeper.dropTokens subject).Yields scene fun _ after =>
      Attended (fun m => (Reads folder place now entries m ∧ lacks m service subject) ∧
        (Record.entriesAt m place tokensName).value? subject = none)
        (·.Erases folder place) after := by
  have vault : ¬ ¬ IsReserved Secret.Vault.fileName := not_not.mpr (isReserved_of_mem (by decide))
  have kept {α : Type} {action : Action α} {m : Machine}
      (confined : action.Confined folder place (¬ IsReserved ·))
      (keychain : (action.exec m).2.keychain = m.keychain)
      (hm : Reads folder place now entries m ∧ lacks m service subject) :
      Reads folder place now entries (action.exec m).2 ∧ lacks (action.exec m).2 service subject :=
    ⟨hm.1.confined confined not_isReserved_index,
      forgets.same hm.2 ((confined m hm.1.ground).under vault) keychain⟩
  have tokens : Tree.IsFileName tokensName := ⟨by decide, by decide⟩
  have ends : (keeper.dropTokens subject).Ends scene fun outcome after => Attended (fun m =>
      (Reads folder place now entries m ∧ lacks m service subject) ∧ (outcome = .ok () →
        (Record.entriesAt m place tokensName).value? subject = none))
      (·.Erases folder place) after :=
    dropTokens_attended (fun m hm => ?_) (fun client fits m hm => ?_) (fun m hm => ?_)
      (fun _ _ hm => ⟨hm, nofun⟩) h
  · exact .of_ends (ends.mono fun outcome after ha _ ho =>
      ⟨⟨ha.machine.1, ha.machine.2 (by rw [ho])⟩, ha.client⟩)
  · exact ⟨kept own.clients.makes (erases.keychain m) hm,
      fun client ho => erases.made m client _ hm.1.ground (Prod.ext ho rfl)⟩
  · exact ⟨kept (fits.apart.revoke subject) (fits.keychain subject m hm.1.ground) hm,
      fun ho => fits.revoke subject m hm.1.ground () _ (Prod.ext ho rfl)⟩
  · rw [own.tokens]
    refine ⟨kept ((Record.Store.remove_confined tokens subject).mono not_isReserved_tokens)
      (Record.Store.remove_keychain hm.1.ground tokens subject) hm, fun ho => ?_⟩
    rw [(Record.Store.remove_yields hm.1.ground tokens subject () _ (Prod.ext ho rfl)).entries]
    exact Assoc.value?_remove_self _ _

/-- A session that was dropped is out of the index, and of an account nothing is left. -/
theorem drop_forgets (own : keeper.StoresIn folder place holds)
    (forgets : keeper.secrets.Forgets folder place lacks)
    (erases : keeper.factory.Erases keeper.stores folder place)
    (h : Attended (Indexes folder place now entries) (·.Erases folder place) scene)
    (session : Session) : (keeper.drop session).Yields scene fun _ after =>
      Attended (fun m => Reads folder place now (entries.remove session.subject) m ∧
        keeper.HasForgotten place lacks session m) (·.Erases folder place) after := by
  unfold drop
  rw [own.index]
  refine .bind (P := fun _ after => Attended
    (Reads folder place now (entries.remove session.subject)) (·.Erases folder place) after)
    (.lift fun _ later he => ⟨⟨?_, ?_⟩, h.client⟩) fun _ between hb => ?_
  · have wrote := Record.Store.remove_yields h.machine.ground isFileName_indexName _ _ later he
    rw [h.machine.index] at wrote
    exact h.machine.wrote wrote
  · exact Record.Store.remove_legible h.machine.ground isFileName_indexName _ _ later he
  · cases session with
    | worker s => exact .pure ⟨⟨hb.machine, trivial⟩, hb.client⟩
    | account s =>
      refine .bind (P := fun _ after => Attended (fun m =>
        Reads folder place now (entries.remove s.subject) m ∧
          lacks m keeper.passphraseService s.subject) (·.Erases folder place) after)
        (.lift fun _ later he => ⟨⟨?_, ?_⟩, hb.client⟩) fun _ later hl => ?_
      · have kept := hb.machine.confined
          (own.secrets.remove_confined keeper.passphraseService s.subject) (not_isOwnName (by decide))
        rwa [he] at kept
      · exact forgets.remove hb.machine.ground _ _ _ later he
      · exact (dropTokens_forgets own forgets erases hl).mono fun _ _ ha =>
          ⟨⟨ha.machine.1.1, ha.machine.1.2, ha.machine.2⟩, ha.client⟩

/-- The entries that are left of an index once a session, if there was one, was dropped. -/
def entriesLeft (entries : Assoc Text Json) : Option Session → Assoc Text Json
  | none => entries
  | some session => entries.remove session.subject

omit [Runtime] in
/-- Once the first session was dropped, the other ones are left. -/
theorem listed_entriesLeft {room : Nat} (regular : (Json.obj entries).IsRegular room)
    (filed : Session.AreFiled entries) (now : Moment) :
    Session.listed now (entriesLeft entries (Session.listed now entries).head?) =
      (Session.listed now entries).tail := by
  have nodup := ((Json.isPlain_obj _).mp regular.plain).1
  cases hl : Session.listed now entries with
  | nil => exact hl
  | cons first rest => exact Session.listed_remove_first nodup filed hl

/-- What is true of a machine after the session was cleared. -/
structure Cleared (keeper : Keeper) (folder : Path) (place : Location)
    (lacks : Machine → Text → Text → Prop) (now : Moment) (entries : Assoc Text Json)
    (cleared : Option Session) (machine : Machine) : Prop where
  told : cleared = (Session.listed now entries).head?
  reads : Reads folder place now (entriesLeft entries cleared) machine
  forgotten : ∀ session, cleared = some session → keeper.HasForgotten place lacks session machine

theorem Cleared.quiet (forgets : keeper.secrets.Forgets folder place lacks)
    {cleared : Option Session}
    (h : Cleared keeper folder place lacks now entries cleared machine)
    (quiet : machine.Quiet after) :
    Cleared keeper folder place lacks now entries cleared after :=
  ⟨h.told, h.reads.quiet quiet, fun session hs =>
    (h.forgotten session hs).of_under forgets (quiet.under _ _) (quiet.under _ _) quiet.keychain⟩

/-- What was cleared stays so when the lock is given back. -/
theorem Cleared.released (own : keeper.StoresIn folder place holds)
    (forgets : keeper.secrets.Forgets folder place lacks) {cleared : Option Session}
    (h : Cleared keeper folder place lacks now entries cleared machine) {marker : Lock.Marker}
    (key : marker.key = lockKey) :
    Cleared keeper folder place lacks now entries cleared
      ((keeper.lock.release marker).exec machine).2 := by
  have lockName : Lock.fileName? marker.key = some "lock-cli-session.json" := by
    rw [key]
    rfl
  have released : (keeper.lock.release marker).Confined folder place
      (· = "lock-cli-session.json") :=
    Lock.release_confined own.lock lockName not_isReserved_marker.1
  have only := released machine h.reads.ground
  refine ⟨h.told, h.reads.confined released (by decide), fun session hs => ?_⟩
  exact (h.forgotten session hs).of_under forgets (only.under (by decide))
    (only.under (by decide)) (Lock.release_keychain _ _ machine)

theorem dropFirst_clears (own : keeper.StoresIn folder place holds)
    (forgets : keeper.secrets.Forgets folder place lacks)
    (erases : keeper.factory.Erases keeper.stores folder place)
    (h : Attended (Indexes folder place now entries) (·.Erases folder place) scene) :
    (do
      match ← keeper.current? with
      | none =>
        Action.log .info .session "No active session found"
        return none
      | some session =>
        keeper.drop session
        return some session : SessionAction (Option Session)).Yields scene fun cleared after =>
      Cleared keeper folder place lacks now entries cleared after.machine := by
  refine .bind (P := fun found later => found = (Session.listed now entries).head? ∧
    Attended (Reads folder place now entries) (·.Erases folder place) later)
    (.lift ((current?_reads own h.machine).mono fun _ _ ⟨heq, hr⟩ => ⟨heq, hr, h.client⟩))
    fun found later ⟨heq, hl⟩ => ?_
  cases found with
  | none =>
    refine .bind (P := fun _ after => Reads folder place now entries after.machine)
      (.lift (.of_exec rfl fun _ _ => hl.machine.quiet (.of_passive (.log _ _ _) _)))
      fun _ _ ha => .pure ⟨heq, ha, nofun⟩
  | some session =>
    have indexes : Attended (Indexes folder place now entries) (·.Erases folder place) later :=
      ⟨hl.machine.toIndexes, hl.client⟩
    refine .bind (drop_forgets own forgets erases indexes session) fun _ _ ha => .pure ?_
    refine ⟨heq, ha.machine.1, ?_⟩
    rintro _ ⟨⟩
    exact ha.machine.2

/-- A clearing that returns has told the first session of the index and dropped it. -/
theorem clear_yields (own : keeper.StoresIn folder place holds)
    (forgets : keeper.secrets.Forgets folder place lacks)
    (erases : keeper.factory.Erases keeper.stores folder place)
    (h : Attended (Foresees folder place now entries) (·.Erases folder place) scene) :
    keeper.clear.Yields scene fun cleared after =>
      Cleared keeper folder place lacks now entries cleared after.machine := by
  unfold clear
  refine .bind (P := fun cleared after =>
    Cleared keeper folder place lacks now entries cleared after.machine) ?_ fun cleared between hb => ?_
  · refine .holding (acquire_indexes own h.machine) fun marker between ⟨hi, hk⟩ => ?_
    have entering : Attended (Indexes folder place now entries) (·.Erases folder place)
        ⟨scene.client, between⟩ := ⟨hi, h.client⟩
    refine (dropFirst_clears own forgets erases entering).mono fun cleared later hl => ?_
    exact Action.Yields.of_exec rfl fun _ _ => hl.released own forgets hk
  · cases cleared with
    | none => exact .pure hb
    | some session =>
      refine .bind (P := fun _ after =>
        Cleared keeper folder place lacks now entries (some session) after.machine)
        (.lift (.of_exec rfl fun _ _ => hb.quiet forgets (.of_passive (.log _ _ _) _)))
        fun _ _ ha => .pure ha

/-- Whatever the index and the other files hold: a clearing that returns has told the first session
that the index holds. Of an account neither the passphrase nor the tokens are left. And when
every session of the index is filed under its own subject, the session that is loaded from then on
is the next one of the index, with its secret, and there is none when there is no next one. -/
theorem clear_logs_out (own : keeper.StoresIn folder place holds)
    (forgets : keeper.secrets.Forgets folder place lacks)
    (erases : keeper.factory.Erases keeper.stores folder place) (numbered : machine.tree.Numbered)
    (aim : ∀ (tree : Tree) l, tree.locate machine.directory folder = .ok l → l = place)
    {client later : Option OAuth.Client}
    (present : ∀ c, client = some c → c.Erases folder place) {cleared : Option Session}
    (ended : keeper.clear.exec client machine = (.ok cleared, later, after)) :
    let sessions := Session.listed machine.now (Record.entriesAt machine place indexName)
    cleared = sessions.head? ∧
    (∀ s, cleared = some (.account s) →
      (∃ last, (keeper.secrets.get? keeper.passphraseService s.subject).exec after =
        (.ok none, last)) ∧
      (Record.entriesAt after place tokensName).value? s.subject = none) ∧
    (Session.AreFiled (Record.entriesAt machine place indexName) →
      (sessions.tail = [] → ∃ last, keeper.load.exec after = (.ok none, last)) ∧
      ∀ next rest, sessions.tail = next :: rest → ∃ last, after.Quiet last ∧
        keeper.load.exec after = (do return some (← keeper.hydrate next)).exec last) := by
  have foreseen : Attended
      (Foresees folder place machine.now (Record.entriesAt machine place indexName))
      (·.Erases folder place) ⟨client, machine⟩ := ⟨⟨numbered, aim, rfl, rfl⟩, present⟩
  obtain ⟨told, reads, forgotten⟩ := clear_yields own forgets erases foreseen cleared later after ended
  refine ⟨told, fun s hs => ?_, fun filed => ?_⟩
  · obtain ⟨lacking, tokens⟩ := forgotten _ hs
    exact ⟨forgets.get? reads.ground lacking, tokens⟩
  · obtain ⟨last, current, quiet⟩ := reads.current?_exec own
    rw [told, listed_entriesLeft (Record.isRegular_entriesAt machine place indexName) filed]
      at current
    refine ⟨fun alone => ⟨last, ?_⟩, fun next rest more => ⟨last, quiet, ?_⟩⟩
    · rw [alone] at current
      exact (Action.exec_bind_ok current).trans rfl
    · rw [more] at current
      exact Action.exec_bind_ok current

/-- The client whose subjects are the handles erases, with its tokens in the folder. -/
theorem plainFactory_erases {stores : OAuth.Stores}
    (tokens : stores.sessions = ⟨folder.child tokensName⟩) :
    plainFactory.Erases stores folder place := by
  have name : Tree.IsFileName tokensName := ⟨by decide, by decide⟩
  refine ⟨fun _ => rfl, fun machine client after _ h => ⟨isApart_of_plainFactory tokens h, ?_, ?_⟩⟩
  · obtain ⟨⟩ := h
    intro subject m g
    rw [tokens]
    exact Record.Store.remove_keychain g name subject
  · obtain ⟨⟩ := h
    intro subject m g
    rw [tokens]
    refine (Record.Store.remove_yields g name subject).mono fun _ _ wrote => ?_
    rw [wrote.entries]
    exact Assoc.value?_remove_self _ _

end Keeper

end

namespace Keeper

open scoped SessionKeeper.Runtime

/-- The keeper of the empty folder has its files there. -/
theorem plainKeeper_storesIn : plainKeeper.MadeIn ⟨"/", ["home"]⟩ { factory := plainFactory } ∧
    plainKeeper.StoresIn ⟨"/", ["home"]⟩ ["home"] (Secret.Vault.HoldsLedger ["home"]) := by
  have made : (make ⟨"/", ["home"]⟩ { factory := plainFactory }).exec Machine.bare =
      (.ok plainKeeper, plainMade.2) := (eq_ok_get _ : plainMade = _)
  obtain ⟨own, -⟩ := madeIn_of_make made
  clear made
  generalize plainKeeper = keeper at own
  refine ⟨own, own.index, own.workers, own.tokens, own.lock, ?_, ?_, ?_⟩
  · rw [own.service]
    decide
  · rw [own.secrets]
    exact Secret.Vault.keeps _ _
  · rw [own.factory]
    exact plainFactory_isApart own.tokens

/-- How logging in on the empty folder goes. -/
def plainEntered : Ending × Option OAuth.Client × Machine :=
  (plainKeeper.perform (.login "a.b" false)).exec none plainMade.2

theorem plainEntered_eq : plainEntered.1 = .ok (some (.account ⟨"a.b", "a.b", some "p"⟩)) :=
  ending_eq_ok (by decide +kernel)

/-- How clearing the session goes after that. -/
def plainCleared : Ending × Option OAuth.Client × Machine :=
  plainKeeper.clear.exec none plainEntered.2.2

theorem plainCleared_eq : plainCleared.1 = .ok (some (.account ⟨"a.b", "a.b", none⟩)) :=
  ending_eq_ok (by decide +kernel)

/-- What is in the index after the login is that session, filed under its subject. -/
theorem plainEntered_shows : Ground plainEntered.2.2 ⟨"/", ["home"]⟩ ["home"] ∧
    plainKeeper.HasStored ["home"] (Secret.Vault.HoldsLedger ["home"])
      (.account ⟨"a.b", "a.b", some "p"⟩) plainEntered.2.2 := by
  have returned := plainEntered_eq
  have made : (make ⟨"/", ["home"]⟩ { factory := plainFactory }).exec Machine.bare =
      (.ok plainKeeper, plainMade.2) := (eq_ok_get _ : plainMade = _)
  obtain ⟨-, same⟩ := madeIn_of_make made
  clear made
  have fixed : Machine.bare.SameCircumstances plainMade.2 := .of_exec _ _
  obtain ⟨own, stores⟩ := plainKeeper_storesIn
  have discreet : plainKeeper.factory.IsDiscreet plainKeeper.stores ⟨"/", ["home"]⟩ ["home"] := by
    rw [own.factory]
    exact plainFactory_isDiscreet own.tokens
  unfold plainEntered at returned ⊢
  generalize plainMade.2 = start at returned same fixed
  generalize plainKeeper = keeper at returned own stores discreet
  have ground : Ground start ⟨"/", ["home"]⟩ ["home"] := Machine.ground_bare.of_quiet ⟨fixed, same⟩
  have tree : start.tree = Machine.bare.tree := congrArg Prod.fst same
  have free : start.under ["home"] indexName = none := by
    rw [Machine.under, tree]
    exact Machine.under_bare indexName
  have index : Record.entriesAt start ["home"] indexName = [] :=
    Record.Holds.entriesAt_eq (.inl ⟨rfl, free⟩)
  have foreseen : Foreseen ⟨"/", ["home"]⟩ ["home"] start.now [] ⟨none, start⟩ :=
    ⟨⟨ground.numbered, fun _ _ hl => Tree.walk_unique hl ground.leads, index, rfl⟩,
      fun _ made => by cases made⟩
  have joined : (Session.account ⟨"a.b", "a.b", some "p"⟩).IsJoined := by
    refine ⟨by decide, by decide, ?_⟩
    rintro _ ⟨⟩
    decide
  have clock : start.now.IsSound ∧ start.now.stored = start.now := by
    rw [fixed.now]
    exact ⟨isSound_bare, by decide⟩
  obtain ⟨ground, stored, -⟩ := perform_yields stores discreet foreseen (List.forall_mem_nil _) clock
    (rfl : (Operation.login "a.b" false).isEntry = true) _ _ _ (Prod.ext returned rfl) _ rfl joined
  exact ⟨ground, stored⟩

/-- After a login on the empty folder the session is cleared, and then there is none. -/
theorem login_is_cleared : plainCleared.1 = .ok (some (.account ⟨"a.b", "a.b", none⟩)) ∧
    (∃ last, (plainKeeper.secrets.get? plainKeeper.passphraseService "a.b").exec plainCleared.2.2 =
      (.ok none, last)) ∧
    (Record.entriesAt plainCleared.2.2 ["home"] tokensName).value? "a.b" = none ∧
    ∃ last, plainKeeper.load.exec plainCleared.2.2 = (.ok none, last) := by
  have cleared := plainCleared_eq
  obtain ⟨ground, stored⟩ := plainEntered_shows
  obtain ⟨own, stores⟩ := plainKeeper_storesIn
  have erases : plainKeeper.factory.Erases plainKeeper.stores ⟨"/", ["home"]⟩ ["home"] := by
    rw [own.factory]
    exact plainFactory_erases own.tokens
  have forgets : plainKeeper.secrets.Forgets ⟨"/", ["home"]⟩ ["home"]
      (Secret.Vault.Lacks ["home"]) := by
    rw [own.secrets]
    exact Secret.Vault.forgets _ _
  unfold plainCleared at cleared ⊢
  generalize plainEntered.2.2 = start at cleared ground stored
  generalize plainKeeper = keeper at cleared stored stores erases forgets
  have present (c : OAuth.Client) (h : none = some c) : c.Erases ⟨"/", ["home"]⟩ ["home"] := nomatch h
  obtain ⟨-, forgotten, left⟩ := clear_logs_out stores forgets erases ground.numbered
    (fun _ _ hl => Tree.walk_unique hl ground.leads) present (Prod.ext cleared rfl)
  obtain ⟨lacking, tokens⟩ := forgotten _ rfl
  refine ⟨cleared, lacking, tokens, (left stored.filed).1 ?_⟩
  rw [stored.only]
  rfl

/-- What clearing tells and what is loaded after that, on the empty folder once it was prepared. -/
def clearedAfter (prepared : SessionAction Unit) : Option (Option Session × Option Session) :=
  ((do
    prepared
    let cleared ← plainKeeper.clear
    let loaded ← plainKeeper.load
    return (cleared, loaded) : SessionAction (Option Session × Option Session)).exec none
      plainMade.2).1.toOption

/-- Where a second session was saved next to the first, clearing leaves it to be loaded; and a
session that is not filed under its own subject is loaded as before. -/
theorem clearing_leaves_session :
    clearedAfter (do
      plainKeeper.save (.account ⟨"a.b", "a.b", some "p"⟩)
      plainKeeper.save (.account ⟨"c.d", "c.d", some "q"⟩)) =
        some (some (.account ⟨"a.b", "a.b", none⟩), some (.account ⟨"c.d", "c.d", some "q"⟩)) ∧
    clearedAfter (plainKeeper.index.put "c.d"
      (Session.account ⟨"a.b", "a.b", none⟩).indexRecord : Action Unit) =
        some (some (.account ⟨"a.b", "a.b", none⟩), some (.account ⟨"a.b", "a.b", none⟩)) := by
  constructor <;> decide +kernel

end Keeper

end SessionKeeper
