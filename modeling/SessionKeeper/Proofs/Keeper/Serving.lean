import SessionKeeper.Proofs.Keeper.Gate
import SessionKeeper.Proofs.Keeper.Reloaded

/-!
# Logins with a client that serves

A login authorizes its account first, and then makes the new session the only one while it holds
the session lock. With a client that revokes without fail, what comes of the second part depends
on the lock alone: if it is given, the section returns, whatever session was current, and all that
belongs to the new session is stored.
-/
namespace SessionKeeper

variable [Runtime]

namespace Keeper

/-- That the file of the token sets can be read and replaced. -/
structure Keepable (folder : Path) (place : Location) (machine : Machine) : Prop where
  ground : Ground machine folder place
  writable : Record.Writable machine place tokensName
  held : ∃ entries, Record.Holds machine place tokensName entries

end Keeper

/-- That a client is loyal and knows one account for a handle. The token sets of other accounts
stay when it authorizes, whatever comes of that, and to revoke does not fail. -/
structure OAuth.Client.Serves (handle account : Text) (folder : Path) (place : Location)
    (client : OAuth.Client) : Prop extends client.IsLoyal folder place where
  knows : ∀ machine authorization after, Ground machine folder place →
    (client.authorize handle).exec machine = (.ok authorization, after) →
      authorization.subject = account
  keeps : ∀ other machine, Keeper.Keepable folder place machine →
    Keeper.Keepable folder place ((client.authorize other).exec machine).2
  spares : ∀ machine, Keeper.Keepable folder place machine →
    Keeper.tokenHolders machine place \ {account} ⊆
      Keeper.tokenHolders ((client.authorize handle).exec machine).2 place
  revokes_returns : ∀ subject machine, Keeper.Keepable folder place machine →
    (client.revoke subject).Ends machine fun outcome after =>
      outcome = .ok () ∧ Keeper.Keepable folder place after

/-- That a client of that kind is always made, with no token set changed. -/
structure OAuth.Factory.Serves (handle account : Text) (factory : OAuth.Factory)
    (stores : OAuth.Stores) (folder : Path) (place : Location) : Prop
    extends factory.IsLoyal stores folder place where
  always : ∀ machine, Keeper.Keepable folder place machine →
    (factory stores).Ends machine fun outcome after => Keeper.Keepable folder place after ∧
      ∃ client, outcome = .ok client ∧ client.Serves handle account folder place

namespace Keeper

variable {keeper other : Keeper} {folder : Path} {place : Location} {machine after : Machine}
  {holds : Machine → Secret.Ledger → Prop} {mark : Option Node} {books : Books} {scene : Scene}
  {handle account : Text}

namespace Keepable

/-- What touches neither that file nor the temporary one beside it leaves it as it was. -/
theorem of_changedOnly {names : String → Prop} (h : Keepable folder place machine)
    (ground : Ground after folder place) (only : ChangedOnly place names machine after)
    (apart : ¬ names tokensName ∧ ¬ names (Machine.temporaryName tokensName 0)) :
    Keepable folder place after := by
  obtain ⟨entries, held⟩ := h.held
  refine ⟨ground, ⟨?_, fun mode => ?_⟩, entries, held.of_under (only.under apart.1)⟩
  · rw [only.under apart.2]
    exact h.writable.free
  · rw [only.under apart.1]
    exact h.writable.plain mode

theorem confined {α : Type} {names : String → Prop} (h : Keepable folder place machine)
    {action : Action α} (confined : action.Confined folder place names)
    (apart : ¬ names tokensName ∧ ¬ names (Machine.temporaryName tokensName 0)) :
    Keepable folder place (action.exec machine).2 :=
  h.of_changedOnly (h.ground.exec rfl (confined machine h.ground)) (confined machine h.ground) apart

theorem quiet (h : Keepable folder place machine) (quiet : machine.Quiet after) :
    Keepable folder place after :=
  h.of_changedOnly (h.ground.of_quiet quiet)
    (show ChangedOnly place (fun _ => False) machine after from .of_tree quiet.tree)
    ⟨not_false, not_false⟩

/-- What was done to that file left it so. -/
theorem touched {α : Type} {action : Action α} {outcome : Except Failure α}
    (h : Keepable folder place machine) (he : action.exec machine = (outcome, after))
    (touched : Record.Touched place tokensName machine after) {entries : Assoc Text Json}
    (held : Record.Holds after place tokensName entries) : Keepable folder place after where
  ground := h.ground.exec he touched.only
  writable := touched.writable
  held := ⟨entries, held⟩

end Keepable

/-- How the temporary files beside a keeper's own files begin. -/
def temporaryStarts : List (List Char) := [['.', 'c'], ['.', 'w'], ['.', '.']]

omit [Runtime] in
theorem mem_temporaryStarts {own : String} (h : own ∈ ownNames) (k : Nat) :
    (Machine.temporaryName own k).toList.take 2 ∈ temporaryStarts := by
  simp only [Machine.temporaryName, String.toList_append]
  simp only [ownNames, List.mem_cons, List.not_mem_nil, or_false] at h
  rcases h with rfl | rfl | rfl
  · exact .head _
  · exact .tail _ (.head _)
  · exact .tail _ (.tail _ (.head _))

omit [Runtime] in
/-- The files of a keeper and the temporary files beside them are not the one of the token sets,
nor the one beside that. -/
theorem tokens_apart {own : String} (h : own ∈ ownNames) {names : String → Prop}
    (within : ∀ name, names name → name = own ∨ ∃ k, name = Machine.temporaryName own k) :
    ¬ names tokensName ∧ ¬ names (Machine.temporaryName tokensName 0) := by
  have differ : ∀ own ∈ ownNames, tokensName ≠ own ∧ Machine.temporaryName tokensName 0 ≠ own := by
    decide
  have begins : tokensName.toList.take 2 ∉ temporaryStarts ∧
      (Machine.temporaryName tokensName 0).toList.take 2 ∉ temporaryStarts := by decide
  constructor
  · intro hn
    rcases within _ hn with same | ⟨k, same⟩
    · exact (differ own h).1 same
    · exact begins.1 (same ▸ mem_temporaryStarts h k)
  · intro hn
    rcases within _ hn with same | ⟨k, same⟩
    · exact (differ own h).2 same
    · exact begins.2 (same ▸ mem_temporaryStarts h k)

theorem secrets_keepable {α : Type} (h : Keepable folder place machine) {action : Action α}
    (confined : action.Confined folder place Secret.Vault.IsOwnName) :
    Keepable folder place (action.exec machine).2 :=
  h.confined confined (tokens_apart (show Secret.Vault.fileName ∈ ownNames by decide) fun _ hn => hn)

theorem put_keepable (h : Keepable folder place machine) {own : String} (ho : own ∈ ownNames)
    (key : Text) (value : Json) :
    Keepable folder place ((Record.Store.put ⟨folder.child own⟩ key value).exec machine).2 :=
  h.confined (Record.Store.put_confined (isRecordName_of_mem own ho).file key value)
    (tokens_apart ho fun _ hn => hn)

theorem remove_keepable (h : Keepable folder place machine) {own : String} (ho : own ∈ ownNames)
    (key : Text) :
    Keepable folder place ((Record.Store.remove ⟨folder.child own⟩ key).exec machine).2 :=
  h.confined (Record.Store.remove_confined (isRecordName_of_mem own ho).file key)
    (tokens_apart ho fun _ hn => hn)

/-- Taking a subject out of the token sets leaves a file that can be read and replaced. -/
theorem tokens_remove_keepable (h : Keepable folder place machine) (subject : Text) :
    (Record.Store.remove ⟨folder.child tokensName⟩ subject).Ends machine fun outcome after =>
      outcome = .ok () ∧ Keepable folder place after := by
  obtain ⟨entries, held⟩ := h.held
  obtain ⟨after, he, touched, left⟩ := Record.Store.remove_of_holds h.ground
    ⟨⟨by decide, by decide⟩, ⟨by decide, by decide⟩⟩ h.writable held subject
  exact .of_exec he ⟨rfl, h.touched he touched left⟩

/-- Nothing that a keeper does spoils the file of the token sets. -/
theorem LiesIn.sustains_keepable (lies : keeper.LiesIn folder)
    (serves : keeper.factory.Serves handle account keeper.stores folder place) :
    keeper.Sustains (Keepable folder place) fun client =>
      client.Serves handle account folder place where
  quiet _ _ h quiet := h.quiet quiet
  makes machine h := (serves.always machine h).mono fun _ _ ⟨kept, client, made, fitting⟩ =>
    ⟨kept, fun c hc => Except.ok.inj (made.symm.trans hc) ▸ fitting⟩
  authorizes _ fitting handle machine h := fitting.keeps handle machine h
  revokes _ fitting subject machine h := (fitting.revokes_returns subject machine h).2
  enters session _ h := by
    rw [lies.index]
    exact put_keepable h (by decide) _ _
  strikes subject _ h := by
    rw [lies.index]
    exact remove_keepable h (by decide) _
  registers worker _ h := by
    rw [lies.workers]
    exact put_keepable h (by decide) _ _
  dismisses id _ h := by
    rw [lies.workers]
    exact remove_keepable h (by decide) _
  discards subject _ h := by
    rw [lies.tokens]
    exact (tokens_remove_keepable h subject).2
  looks _ _ _ h := secrets_keepable h (lies.secrets.get? place _ _)
  stores _ _ _ _ _ h := secrets_keepable h (lies.secrets.put place _ _ _)
  forgets _ _ _ h := secrets_keepable h (lies.secrets.remove place _ _)

/-- Authorizes a handle, with a note. -/
def procure (keeper : Keeper) (handle : Text) : SessionAction AccountSession := do
  Action.log .info .session "Starting OAuth login"
  keeper.authorize handle

/-- Makes the session of an account the only one, with a note. -/
def install (keeper : Keeper) (session : AccountSession) : SessionAction AccountSession := do
  keeper.replaceBy (.account session)
  Action.log .info .session "Login complete"
  return session

/-- What touched nothing of the keeper's can have changed the token sets only. -/
theorem Balanced.untouched (own : keeper.StoresIn folder place holds)
    (h : Balanced keeper folder place holds mark books machine)
    (u : Untouched folder place machine after) : Balanced keeper folder place holds mark
      { books with tokens := tokenHolders after place } after := by
  have only : ChangedOnly place (¬ IsReserved ·) machine after :=
    u.only.mono fun name hn reserved => hn (.inl reserved)
  have balanced := h.elsewhere own u.ground only u.keychain u.now
  rwa [u.under (.inr rfl), h.mark] at balanced

theorem HasStored.untouched (own : keeper.StoresIn folder place holds) {session : Session}
    (h : keeper.HasStored place holds session machine) (u : Untouched folder place machine after) :
    keeper.HasStored place holds session after :=
  h.of_under own (fun _ hn => u.under (.inl (isReserved_of_mem hn))) u.keychain

/-- That nothing of the keeper's was touched and the token sets are those of the same subjects. -/
structure Unmoved (folder : Path) (place : Location) (before after : Machine) : Prop where
  untouched : Untouched folder place before after
  keepable : Keepable folder place after
  tokens : tokenHolders after place = tokenHolders before place

theorem Unmoved.quiet {before last : Machine} (h : Unmoved folder place before after)
    (quiet : after.Quiet last) : Unmoved folder place before last where
  untouched := h.untouched.quiet quiet
  keepable := h.keepable.quiet quiet
  tokens := (tokenHolders_of_under (quiet.under _ _)).trans h.tokens

/-- That nothing of the keeper's was touched and the other accounts have the tokens they had. -/
structure Procured (folder : Path) (place : Location) (account : Text) (before after : Machine) :
    Prop where
  untouched : Untouched folder place before after
  keepable : Keepable folder place after
  others : tokenHolders before place \ {account} ⊆ tokenHolders after place

theorem Unmoved.procured {before : Machine} (h : Unmoved folder place before after)
    (account : Text) : Procured folder place account before after where
  untouched := h.untouched
  keepable := h.keepable
  others := by
    rw [h.tokens]
    exact Set.sdiff_subset

/-- Authorizing touches nothing of the keeper's and leaves the tokens of other accounts. If it
returns, it is the account that was authorized, and there are tokens for it. -/
theorem procure_ends (serves : keeper.factory.Serves handle account keeper.stores folder place)
    (keepable : Keepable folder place scene.machine)
    (fits : ∀ client, scene.client = some client → client.Serves handle account folder place) :
    (keeper.procure handle).Ends scene fun outcome after =>
      Attended (Procured folder place account scene.machine)
        (·.Serves handle account folder place) after ∧
      ∀ session, outcome = .ok session → session.subject = account ∧ IsEntrant (.account session) ∧
        account ∈ tokenHolders after.machine place := by
  have started : Attended (Unmoved folder place scene.machine)
      (·.Serves handle account folder place) scene := ⟨⟨.refl keepable.ground, keepable, rfl⟩, fits⟩
  have makes (machine : Machine) (hm : Unmoved folder place scene.machine machine) :
      (keeper.factory keeper.stores).Ends machine fun outcome after =>
        Unmoved folder place scene.machine after ∧
          ∀ client, outcome = .ok client → client.Serves handle account folder place := by
    obtain ⟨kept, client, made, fitting⟩ := serves.always machine hm.keepable
    refine ⟨⟨hm.untouched.respects serves.makes, kept, ?_⟩, fun c hc => ?_⟩
    · rw [serves.tokens machine hm.untouched.ground, hm.tokens]
    · exact Except.ok.inj (made.symm.trans hc) ▸ fitting
  have authorizes (client : OAuth.Client) (fitting : client.Serves handle account folder place)
      (machine : Machine) (hm : Unmoved folder place scene.machine machine) :
      (client.authorize handle).Ends machine fun outcome after =>
        (∀ authorization, outcome = .ok authorization → authorization.subject = account ∧
          IsAccount authorization.subject ∧ account ∈ tokenHolders after place) ∧
        Procured folder place account scene.machine after := by
    have g := hm.untouched.ground
    refine ⟨fun authorization ho => ?_, hm.untouched.respects (fitting.authorize handle),
      fitting.keeps handle machine hm.keepable, hm.tokens ▸ fitting.spares machine hm.keepable⟩
    have ended : (client.authorize handle).exec machine = (.ok authorization, _) := Prod.ext ho rfl
    obtain ⟨sound, tokens⟩ := fitting.authorizes handle machine _ _ g ended
    have own := fitting.knows machine _ _ g ended
    refine ⟨own, sound, ?_⟩
    rw [tokens, own]
    exact Set.mem_insert _ _
  unfold procure
  refine .bind (started.passive (fun _ _ h => h.quiet) (.log _ _ _)) (fun _ between hb => ?_)
    fun _ between hb => ⟨⟨hb.machine.procured account, hb.client⟩, fun _ ho => by cases ho⟩
  refine (authorize_attended (R := fun found after => found = account ∧ IsAccount found ∧
    account ∈ tokenHolders after place) makes authorizes ?_ (fun _ hm => hm.procured account)
    hb).mono fun outcome after ha => ⟨ha.1, fun session ho => ?_⟩
  · rintro found machine after ⟨own, sound, there⟩ hm quiet
    have same : tokenHolders after place = tokenHolders machine place :=
      tokenHolders_of_under (quiet.under _ _)
    rw [same]
    exact ⟨⟨own, sound, there⟩, hm.untouched.quiet quiet, hm.keepable.quiet quiet, same ▸ hm.others⟩
  · obtain ⟨⟨own, sound, there⟩, -, passphrase, known, some_secret⟩ := ha.2 session ho
    exact ⟨own, ⟨sound, passphrase, known, some_secret⟩, there⟩

/-- A machine with books of some kind, where the token sets can be kept. -/
structure InHand (keeper : Keeper) (folder : Path) (place : Location)
    (holds : Machine → Secret.Ledger → Prop) (machine : Machine) : Prop where
  booked : ∃ mark books, Balanced keeper folder place holds mark books machine
  keepable : Keepable folder place machine

abbrev Serving (keeper : Keeper) (folder : Path) (place : Location)
    (holds : Machine → Secret.Ledger → Prop) (handle account : Text) : Scene → Prop :=
  Attended (InHand keeper folder place holds) (·.Serves handle account folder place)

theorem drop_returned (own : keeper.StoresIn folder place holds) (lies : keeper.LiesIn folder)
    (serves : keeper.factory.Serves handle account keeper.stores folder place)
    (h : Serving keeper folder place holds handle account scene) (session : Session) :
    (keeper.drop session).Ends scene fun outcome after => outcome = .ok () ∧
      Serving keeper folder place holds handle account after := by
  have sustains : keeper.Sustains (Keepable folder place) _ := lies.sustains_keepable serves
  obtain ⟨mark, books, hb⟩ := h.machine.booked
  obtain ⟨struck, he, hs⟩ := index_remove_books own hb session.subject
  have kept := sustains.strikes session.subject _ h.machine.keepable
  rw [he] at kept
  unfold drop
  refine .bind_ok (S := (· = ⟨scene.client, struck⟩)) (.lift (.of_exec he ⟨rfl, rfl⟩)) ?_
  rintro _ rfl
  cases session with
  | worker s => exact .pure ⟨rfl, ⟨⟨_, _, hs⟩, kept⟩, h.client⟩
  | account s =>
    obtain ⟨forgot, hf, hl⟩ := forget_passphrase_books own hs s.subject
    have kept := sustains.forgets keeper.passphraseService s.subject _ kept
    rw [hf] at kept
    refine .bind_ok (S := (· = ⟨scene.client, forgot⟩)) (.lift (.of_exec hf ⟨rfl, rfl⟩)) ?_
    rintro _ rfl
    have still : Serving keeper folder place holds handle account ⟨scene.client, forgot⟩ :=
      ⟨⟨⟨_, _, hl⟩, kept⟩, h.client⟩
    refine (dropTokens_returned (R := fun outcome after => outcome = .ok () ∧
      InHand keeper folder place holds after) ?_ ?_ still).mono
        fun _ after ha => ⟨ha.machine.1, ha.machine.2, ha.client⟩
    · rintro machine ⟨⟨mark, books, hm⟩, kept⟩
      obtain ⟨kept, client, made, fitting⟩ := serves.always machine kept
      exact ⟨⟨⟨mark, books, (makes_books own serves.toIsLoyal machine hm).1⟩, kept⟩, client, made,
        fitting⟩
    · rintro client fitting machine ⟨⟨mark, books, hm⟩, kept⟩
      obtain ⟨returned, kept⟩ := fitting.revokes_returns s.subject machine kept
      exact ⟨returned, ⟨mark, _, hm.respects own (fitting.revoke s.subject)⟩, kept⟩

theorem dropOthers_returned (own : keeper.StoresIn folder place holds) (lies : keeper.LiesIn folder)
    (serves : keeper.factory.Serves handle account keeper.stores folder place)
    (h : Serving keeper folder place holds handle account scene) (subject : Text)
    (others : List Session) :
    (keeper.dropOthers subject others).Ends scene fun outcome after => outcome = .ok () ∧
      Serving keeper folder place holds handle account after := by
  induction others generalizing scene with
  | nil => exact .pure ⟨rfl, h⟩
  | cons session rest ih =>
    rw [dropOthers]
    by_cases mine : session.subject = subject
    · rw [if_neg (not_not.mpr mine)]
      exact ih h
    · rw [if_pos mine]
      obtain ⟨mark, books, hb⟩ := h.machine.booked
      have quiet := Machine.Quiet.of_passive
        (.log .info .session "Replacing current session") scene.machine
      refine .bind_ok (a := ()) (S := Serving keeper folder place holds handle account)
        (.lift (.of_exec rfl ⟨rfl, ⟨⟨mark, books, hb.quiet own quiet⟩,
          h.machine.keepable.quiet quiet⟩, h.client⟩)) fun noted hn => ?_
      exact .bind_ok (drop_returned own lies serves hn session) fun _ hd => ih hd

/-- Where clients revoke without fail, so does dropping the others and persisting the session. -/
theorem enter_returned (own : keeper.StoresIn folder place holds) (lies : keeper.LiesIn folder)
    (serves : keeper.factory.Serves handle account keeper.stores folder place)
    (h : Attended (Balanced keeper folder place holds mark books)
      (·.Serves handle account folder place) scene) (keepable : Keepable folder place scene.machine)
    (settled : books.IsSettled) {session : Session} (entrant : IsEntrant session) :
    (keeper.carryOut (.enter session)).Ends scene fun outcome after => outcome = .ok () ∧
      Attended (Keepable folder place) (·.Serves handle account folder place) after := by
  have sustains : keeper.Sustains (Keepable folder place) _ := lies.sustains_keepable serves
  have indexed := indexed_exec own.index h.machine.shows
  refine .bind_ok (S := (scene = ·)) (.lift (.of_exec indexed ⟨rfl, rfl⟩)) ?_
  rintro _ rfl
  have keeping : Keeping keeper folder place holds mark books scene :=
    ⟨h.machine, fun client hc => (h.client client hc).toIsLoyal⟩
  have serving : Serving keeper folder place holds handle account scene :=
    ⟨⟨⟨mark, books, h.machine⟩, keepable⟩, h.client⟩
  have told := dropOthers_books own serves.toIsLoyal keeping settled session.subject
  have returned := dropOthers_returned own lies serves serving session.subject
    (books.current.map Session.recalled).toList
  refine .bind_ok (a := ()) (S := fun after =>
    Serving keeper folder place holds handle account after ∧ ∃ left,
      Balanced keeper folder place holds mark left after.machine ∧
        ∀ other, left.current = some other → other.subject.rejoin = session.subject) ?_
    fun after ⟨serving, left, hl, room⟩ => ?_
  · refine (told.and returned).mono ?_
    rintro _ after ⟨⟨left, hl, -, -, told⟩, rfl, serving⟩
    exact ⟨rfl, serving, left, hl.machine, (told rfl).1⟩
  · obtain ⟨last, he, -⟩ := persist_books own hl entrant room
    have kept := sustains.persist serving.machine.keepable session
    unfold Action.Ends at kept
    rw [he] at kept
    exact .lift (.of_exec he ⟨rfl, kept, serving.client⟩)

/-- Where the index shows a session or none, its entries are filed under their subjects. -/
theorem Shows.areFiled {current : Option Session} (h : Shows folder place current machine) :
    Session.AreFiled (Record.entriesAt machine place indexName) := by
  rw [h.holds.entriesAt_eq]
  intro pair hp now found hf
  cases current with
  | none => cases hp
  | some session =>
    rw [recalledEntries, List.mem_singleton] at hp
    rw [hp, session.read_reread (h.sound session rfl) now] at hf
    rw [hp, ← Except.ok.inj hf, Session.subject_recalled]

/-- What the section of a login leaves once the lock was taken: the account's session is the one
that is stored, and tokens are only lost by the account that was current before. -/
structure Installed (keeper : Keeper) (folder : Path) (place : Location)
    (holds : Machine → Secret.Ledger → Prop) (mark : Option Node) (books : Books)
    (session : AccountSession) (left : Books) (after : Machine) : Prop where
  balanced : Balanced keeper folder place holds mark left after
  keepable : Keepable folder place after
  settled : left.IsSettled
  current : left.current = some (.account session)
  tokens : left.tokens = books.tokens \ (accountsOf books.current \ {session.subject})
  stored : (Session.account session).IsJoined →
    keeper.HasStored place holds (.account session) after

/-- With the lock taken, dropping the others and persisting the session returns. -/
theorem enter_installs (own : keeper.StoresIn folder place holds) (lies : keeper.LiesIn folder)
    (serves : keeper.factory.Serves handle account keeper.stores folder place)
    (h : Attended (Balanced keeper folder place holds mark books)
      (·.Serves handle account folder place) scene) (keepable : Keepable folder place scene.machine)
    (settled : books.IsSettled) {session : AccountSession} (entrant : IsEntrant (.account session)) :
    (keeper.carryOut (.enter (.account session))).Ends scene fun outcome after =>
      outcome = .ok () ∧ ∃ left,
        Attended (Installed keeper folder place holds mark books session left)
          (·.Serves handle account folder place) after := by
  have keeping : Keeping keeper folder place holds mark books scene :=
    ⟨h.machine, fun client hc => (h.client client hc).toIsLoyal⟩
  have booked : (keeper.carryOut (.enter (.account session))).Ends scene _ :=
    enter_books own serves.toIsLoyal keeping settled entrant
  have returned := enter_returned own lies serves h keepable settled entrant
  have indexed : Indexed folder place scene.machine.now
      (Record.entriesAt scene.machine place indexName) scene :=
    ⟨⟨h.machine.ground, rfl, rfl⟩, fun client hc => (h.client client hc).isApart⟩
  have stored : (keeper.carryOut (.enter (.account session))).Ends scene fun outcome after =>
      outcome = .ok () → (Session.account session).IsJoined →
        keeper.HasStored place holds (.account session) after.machine := by
    intro ho joined
    obtain ⟨passphrase, known, some_secret⟩ := entrant.2
    exact ((enter_yields own indexed h.machine.shows.areFiled joined trivial known
      some_secret).ends () ho).2
  refine (booked.and (returned.and stored)).mono ?_
  rintro _ after ⟨⟨left, hl, fit, -, told⟩, ⟨rfl, kept, fits⟩, there⟩
  obtain ⟨-, current, tokens⟩ := told rfl
  exact ⟨rfl, left, ⟨hl.machine, kept, fit, current, tokens, there rfl⟩, fits⟩

theorem Installed.quiet (own : keeper.StoresIn folder place holds) {session : AccountSession}
    {left : Books} (h : Installed keeper folder place holds mark books session left machine)
    (quiet : machine.Quiet after) :
    Installed keeper folder place holds mark books session left after :=
  ⟨h.balanced.quiet own quiet, h.keepable.quiet quiet, h.settled, h.current, h.tokens, fun joined =>
    (h.stored joined).of_under own (fun _ _ => quiet.under _ _) quiet.keychain⟩

/-- Once the lock is given back, the session is still the one that is stored. -/
theorem Installed.released (own : keeper.StoresIn folder place holds) {session : AccountSession}
    {left : Books} (h : Installed keeper folder place holds mark books session left machine)
    {marker : Lock.Marker} (stands : Lock.Stands machine place markName marker)
    (key : marker.key = lockKey) :
    (keeper.lock.release marker).Ends machine fun outcome after => outcome = .ok () ∧
      Installed keeper folder place holds (after.under place markName) books session left after := by
  obtain ⟨returned, balanced⟩ := release_books own h.balanced stands key
  have confined : (keeper.lock.release marker).Confined folder place (· = markName) :=
    Lock.release_confined own.lock (key ▸ fileName?_lockKey) not_isReserved_marker.1
  exact ⟨returned, balanced, h.keepable.confined confined (by decide), h.settled, h.current,
    h.tokens, fun joined =>
    (h.stored joined).confined own h.balanced.ground
      (confined.mono fun _ hn => hn ▸ not_isReserved_marker.2) (Lock.release_keychain _ _)⟩

/-- What comes of the section of a login depends on the lock alone: it fails if the lock cannot be
taken, and otherwise it returns with its session installed. -/
def Settled (keeper : Keeper) (folder : Path) (place : Location)
    (holds : Machine → Secret.Ledger → Prop) (books : Books) (session : AccountSession)
    (before : Machine) (outcome : Except Failure AccountSession) (after : Machine) : Prop :=
  match ((keeper.lock.acquire lockKey).exec before).1 with
  | .ok _ => outcome = .ok session ∧
    ∃ mark left, Installed keeper folder place holds mark books session left after
  | .error failure => outcome = .error failure ∧
    (∃ mark, Balanced keeper folder place holds mark books after) ∧
    Keepable folder place after ∧
      ∀ other, keeper.HasStored place holds other before → keeper.HasStored place holds other after

/-- Once the lock is taken, the whole section returns with the session installed. -/
theorem replaceBy_installs (own : keeper.StoresIn folder place holds)
    (lies : keeper.LiesIn folder)
    (serves : keeper.factory.Serves handle account keeper.stores folder place)
    (h : Attended (Balanced keeper folder place holds mark books)
      (·.Serves handle account folder place) scene) (keepable : Keepable folder place scene.machine)
    (settled : books.IsSettled)
    {session : AccountSession} (entrant : IsEntrant (.account session)) {marker : Lock.Marker}
    {between : Machine}
    (he : (keeper.lock.acquire lockKey).exec scene.machine = (.ok marker, between)) :
    (keeper.replaceBy (.account session)).Ends scene fun outcome after => outcome = .ok () ∧
      ∃ mark left, Attended (Installed keeper folder place holds mark books session left)
        (·.Serves handle account folder place) after := by
  have taken := acquire_books own h.machine
  have confined : (keeper.lock.acquire lockKey).Confined folder place (· = markName) :=
    Lock.acquire_confined own.lock fileName?_lockKey not_isReserved_marker.1
  have keepable := keepable.confined confined (by decide)
  unfold Action.Ends at taken
  rw [he] at taken keepable
  obtain ⟨stands, key⟩ := taken.2 marker rfl
  have entering : Attended (Balanced keeper folder place holds _ books)
      (·.Serves handle account folder place) ⟨scene.client, between⟩ := ⟨taken.1, h.client⟩
  have within := enter_installs own lies serves entering keepable settled entrant
  refine .holding (T := fun found machine => found = marker ∧ machine = between) ?_ ?_
  · unfold Action.Ends
    rw [he]
    exact ⟨rfl, rfl⟩
  · rintro found machine ⟨rfl, rfl⟩
    refine within.mono ?_
    rintro _ later ⟨rfl, left, hl⟩
    refine (hl.machine.released own (stands.of_under hl.machine.balanced.mark) key).mono ?_
    rintro _ after ⟨rfl, ha⟩
    exact ⟨rfl, _, left, ha, hl.client⟩

/-- A login that cannot take the lock leaves everything that was stored; one that can installs its
session. -/
theorem install_ends (own : keeper.StoresIn folder place holds) (lies : keeper.LiesIn folder)
    (serves : keeper.factory.Serves handle account keeper.stores folder place)
    (h : Attended (Balanced keeper folder place holds mark books)
      (·.Serves handle account folder place) scene) (keepable : Keepable folder place scene.machine)
    (settled : books.IsSettled)
    {session : AccountSession} (entrant : IsEntrant (.account session)) :
    (keeper.install session).Ends scene fun outcome after =>
      Attended (Settled keeper folder place holds books session scene.machine outcome)
        (·.Serves handle account folder place) after := by
  have taken := acquire_books own h.machine
  unfold Action.Ends at taken
  have confined : (keeper.lock.acquire lockKey).Confined folder place (· = markName) :=
    Lock.acquire_confined own.lock fileName?_lockKey not_isReserved_marker.1
  have kept (other : Session) (stored : keeper.HasStored place holds other scene.machine) :=
    stored.confined own h.machine.ground (confined.mono fun _ hn => hn ▸ not_isReserved_marker.2)
      (Lock.acquire_keychain _ _)
  have after_keepable := keepable.confined confined (by decide)
  unfold Settled install
  rcases he : (keeper.lock.acquire lockKey).exec scene.machine with ⟨failure | marker, between⟩
  · simp only [he] at taken kept after_keepable ⊢
    have failed : (keeper.replaceBy (.account session)).exec scene.client scene.machine =
        (.error failure, scene.client, between) := by
      rw [replaceBy, SessionAction.exec_holding, he]
    unfold SessionAction.Ends
    rw [SessionAction.exec_bind_error failed]
    exact ⟨⟨rfl, ⟨_, taken.1⟩, after_keepable, kept⟩, h.client⟩
  · dsimp only
    have held := replaceBy_installs own lies serves h keepable settled entrant he
    refine .bind_ok held fun after ⟨mark, left, ha⟩ => ?_
    have noted := ha.machine.quiet own
      (.of_passive (.log .info .session "Login complete") after.machine)
    refine .bind_ok (S := fun after => ∃ mark left,
      Attended (Installed keeper folder place holds mark books session left)
        (·.Serves handle account folder place) after)
      (.lift (.of_exec rfl ⟨rfl, mark, left, noted, ha.client⟩)) ?_
    rintro last ⟨mark, left, hl⟩
    exact .pure ⟨⟨rfl, mark, left, hl.machine⟩, hl.client⟩

end Keeper
end SessionKeeper
