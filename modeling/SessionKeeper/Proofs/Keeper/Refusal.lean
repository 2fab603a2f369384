import SessionKeeper.Proofs.Keeper.Gate
import SessionKeeper.Proofs.Keeper.Reached

/-!
# When revoking fails

Dropping the session of an account takes it out of the index and forgets its passphrase before
the client is asked to revoke its tokens. When the client refuses, the change fails with that
entry and that passphrase gone. The workers, all other entries and secrets, and the token set of
the account stay as they are, so the session is not loaded any more.
-/
namespace SessionKeeper

section

variable [Runtime]

def Keeper.tokenSet? (machine : Machine) (place : Location) (subject : Text) : Option Json :=
  (Record.entriesAt machine place Keeper.tokensName).value? subject

/-- That a client fails to revoke, without any effect, and leaves the token sets of others alone
when it authorizes. -/
structure OAuth.Client.Refuses (failure : Failure) (folder : Path) (place : Location)
    (client : OAuth.Client) : Prop where
  away : client.KeepsAway folder
  revoke : ∀ subject machine, ∃ after,
    (client.revoke subject).exec machine = (.error failure, after) ∧ machine.Quiet after
  authorize : ∀ handle machine, Ground machine folder place →
    (client.authorize handle).Yields machine fun authorization after =>
      ∀ subject, subject ≠ authorization.subject →
        Keeper.tokenSet? after place subject = Keeper.tokenSet? machine place subject

/-- That a client of that kind is made, with no token set changed. -/
structure OAuth.Factory.Refuses (failure : Failure) (factory : OAuth.Factory)
    (stores : OAuth.Stores) (folder : Path) (place : Location) : Prop where
  makes : ∀ place, (factory stores).Respects folder place
  made : ∀ machine, ∃ client after, (factory stores).exec machine = (.ok client, after) ∧
    client.Refuses failure folder place ∧ (Ground machine folder place →
      after.under place Keeper.tokensName = machine.under place Keeper.tokensName)

theorem OAuth.Factory.Refuses.keepsAway {failure : Failure} {factory : OAuth.Factory}
    {stores : OAuth.Stores} {folder : Path} {place : Location}
    (h : factory.Refuses failure stores folder place) : factory.KeepsAway stores folder := by
  refine ⟨h.makes, fun machine client after he => ?_⟩
  obtain ⟨made, last, hm, refusing, -⟩ := h.made machine
  obtain rfl : client = made := Except.ok.inj (Prod.mk.inj (he.symm.trans hm)).1
  exact refusing.away

namespace Keeper

variable {keeper : Keeper} {folder : Path} {place : Location} {machine before after : Machine}
  {holds : Machine → Secret.Ledger → Prop} {scene : Scene} {failure : Failure} {subject : Text}

theorem tokenSet?_of_under
    (h : after.under place tokensName = machine.under place tokensName) (subject : Text) :
    tokenSet? after place subject = tokenSet? machine place subject := by
  rw [tokenSet?, tokenSet?, Record.entriesAt_of_under h]

/-- What there is of a subject and around it: the entries of the index, the file of the workers,
the secrets and the token set of the subject. -/
structure Stock where
  now : Moment
  index : Assoc Text Json
  workers : Option Node
  secrets : Secret.Ledger
  tokens : Option Json

/-- What is left of a stock when the subject was dropped from the index and from the passphrases. -/
def Stock.without (keeper : Keeper) (subject : Text) (stock : Stock) : Stock :=
  { stock with
    index := stock.index.remove subject
    secrets := stock.secrets.remove keeper.passphraseService subject }

/-- That the files are in order and have this stock. -/
structure Stocked (folder : Path) (place : Location) (holds : Machine → Secret.Ledger → Prop)
    (subject : Text) (stock : Stock) (machine : Machine) : Prop where
  tended : Tended folder place holds machine
  now : machine.now = stock.now
  index : Record.entriesAt machine place indexName = stock.index
  workers : machine.under place workersName = stock.workers
  secrets : holds machine stock.secrets
  tokens : tokenSet? machine place subject = stock.tokens

variable {stock : Stock}

namespace Stocked

theorem elsewhere (tends : keeper.Tends folder place holds)
    (h : Stocked folder place holds subject stock machine) (ground : Ground after folder place)
    (only : ChangedOnly place (¬ IsReserved ·) machine after)
    (keychain : after.keychain = machine.keychain) (now : after.now = machine.now)
    (tokens : tokenSet? after place subject = tokenSet? machine place subject) :
    Stocked folder place holds subject stock after := by
  have same (name : String) (hn : name ∈ ownNames) :
      after.under place name = machine.under place name :=
    only.under (not_not.mpr (isReserved_of_mem hn))
  exact {
    tended := h.tended.elsewhere tends ground only keychain
    now := now.trans h.now
    index := (Record.entriesAt_of_under (same _ (by decide))).trans h.index
    workers := (same _ (by decide)).trans h.workers
    secrets := tends.steady.same h.secrets (same _ (by decide)) keychain
    tokens := tokens.trans h.tokens }

theorem quiet (tends : keeper.Tends folder place holds)
    (h : Stocked folder place holds subject stock machine) (quiet : machine.Quiet after) :
    Stocked folder place holds subject stock after :=
  h.elsewhere tends (h.tended.ground.of_quiet quiet) (.of_tree quiet.tree) quiet.keychain
    quiet.circumstances.now
    (tokenSet?_of_under (quiet.under _ _) subject)

/-- What is done to the marker of the session lock leaves the stock. -/
theorem marked (tends : keeper.Tends folder place holds)
    (h : Stocked folder place holds subject stock machine) {α : Type} {action : Action α}
    {outcome : Except Failure α} (he : action.exec machine = (outcome, after))
    (only : ChangedOnly place (· = markName) machine after)
    (keychain : after.keychain = machine.keychain) :
    Stocked folder place holds subject stock after :=
  h.elsewhere tends (h.tended.ground.exec he only)
    (only.mono fun _ hn => hn ▸ not_isReserved_marker.2) keychain
    (Machine.SameCircumstances.of_exec_eq he).now
    (tokenSet?_of_under (only.under (by decide)) subject)

theorem struck (tends : keeper.Tends folder place holds)
    (h : Stocked folder place holds subject stock machine) :
    ∃ after, (keeper.index.remove subject).exec machine = (.ok (), after) ∧
      Stocked folder place holds subject
        { stock with index := stock.index.remove subject } after := by
  obtain ⟨after, he, tended, touched, left⟩ := index_remove_tended tends h.tended subject
  exact ⟨after, he, {
    tended
    now := (Machine.SameCircumstances.of_exec_eq he).now.trans h.now
    index := by rw [left, h.index]
    workers := (touched.only.under (by decide)).trans h.workers
    secrets := tends.steady.same h.secrets (touched.only.under (by decide)) touched.keychain
    tokens := (tokenSet?_of_under (touched.only.under (by decide)) subject).trans h.tokens }⟩

theorem forgotten (tends : keeper.Tends folder place holds)
    (h : Stocked folder place holds subject stock machine) :
    ∃ after, (keeper.secrets.remove keeper.passphraseService subject).exec machine =
        (.ok (), after) ∧
      Stocked folder place holds subject
        { stock with secrets := stock.secrets.remove keeper.passphraseService subject } after := by
  obtain ⟨after, he, stirred, left⟩ := tends.steady.remove h.tended.ground
    (h.tended.orderly.writable _ (by decide)) h.secrets keeper.passphraseService subject
  exact ⟨after, he, {
    tended := h.tended.secrets_stirred (h.tended.ground.exec he stirred.only) stirred left
    now := (Machine.SameCircumstances.of_exec_eq he).now.trans h.now
    index := (Record.entriesAt_of_under (stirred.only.under (by decide))).trans h.index
    workers := (stirred.only.under (by decide)).trans h.workers
    secrets := left
    tokens := (tokenSet?_of_under (stirred.only.under (by decide)) subject).trans h.tokens }⟩

end Stocked

/-- A scene with a stock and a client that refuses to revoke. -/
abbrev Facing (failure : Failure) (folder : Path) (place : Location)
    (holds : Machine → Secret.Ledger → Prop) (subject : Text) (stock : Stock) : Scene → Prop :=
  Attended (Stocked folder place holds subject stock) (·.Refuses failure folder place)

theorem makes_stocked (tends : keeper.Tends folder place holds)
    (refuses : keeper.factory.Refuses failure keeper.stores folder place)
    (h : Stocked folder place holds subject stock machine) :
    (keeper.factory keeper.stores).Ends machine fun outcome after =>
      Stocked folder place holds subject stock after ∧
        ∃ client, outcome = .ok client ∧ client.Refuses failure folder place := by
  obtain ⟨client, after, he, refusing, tokens⟩ := refuses.made machine
  have ground := h.tended.ground
  have only := (refuses.makes place).confined machine ground
  have keychain := (refuses.makes place).keychain machine ground
  rw [he] at only keychain
  refine .of_exec he ⟨?_, client, rfl, refusing⟩
  exact h.elsewhere tends (ground.exec he only)
    (only.mono fun name hn reserved => hn (.inl reserved)) keychain
    (Machine.SameCircumstances.of_exec_eq he).now (tokenSet?_of_under (tokens ground) subject)

theorem dropTokens_facing (tends : keeper.Tends folder place holds)
    (refuses : keeper.factory.Refuses failure keeper.stores folder place)
    (h : Facing failure folder place holds subject stock scene) (other : Text) :
    (keeper.dropTokens other).Ends scene fun outcome after => outcome = .error failure ∧
      Facing failure folder place holds subject stock after := by
  refine (dropTokens_returned (R := fun outcome after => outcome = .error failure ∧
    Stocked folder place holds subject stock after)
    (fun machine hm => makes_stocked tends refuses hm) (fun client refusing machine hm => ?_)
    h).mono fun outcome after ha => ⟨ha.machine.1, ha.machine.2, ha.client⟩
  obtain ⟨after, he, quiet⟩ := refusing.revoke other machine
  exact .of_exec he ⟨rfl, hm.quiet tends quiet⟩

/-- Dropping the session of an account fails, with its entry and its passphrase gone. -/
theorem drop_facing (tends : keeper.Tends folder place holds)
    (refuses : keeper.factory.Refuses failure keeper.stores folder place) {s : AccountSession}
    (h : Facing failure folder place holds s.subject stock scene) :
    (keeper.drop (.account s)).Ends scene fun outcome after => outcome = .error failure ∧
      Facing failure folder place holds s.subject (stock.without keeper s.subject) after := by
  obtain ⟨between, struck, hb⟩ := h.machine.struck tends
  obtain ⟨later, forgotten, hl⟩ := hb.forgotten tends
  unfold drop
  refine .bind_ok (S := (· = ⟨scene.client, between⟩)) (.lift (.of_exec struck ⟨rfl, rfl⟩)) ?_
  rintro _ rfl
  refine .bind_ok (S := (· = ⟨scene.client, later⟩)) (.lift (.of_exec forgotten ⟨rfl, rfl⟩)) ?_
  rintro _ rfl
  have facing : Facing failure folder place holds s.subject (stock.without keeper s.subject)
      ⟨scene.client, later⟩ := ⟨hl, h.client⟩
  exact dropTokens_facing tends refuses facing s.subject

theorem index_entries_exec (hi : keeper.index = ⟨folder.child indexName⟩)
    (h : Tended folder place holds machine) : keeper.index.entries.exec machine =
      (.ok (Record.entriesAt machine place indexName), machine) := by
  obtain ⟨entries, held, -⟩ := h.index
  rw [hi, held.entriesAt_eq]
  exact Record.Store.entries_exec h.ground (isRecordName_of_mem indexName (by decide)).file held

theorem indexed_listed (hi : keeper.index = ⟨folder.child indexName⟩)
    (h : Tended folder place holds machine) : ∃ after, keeper.indexed.exec machine =
      (.ok (Session.listed machine.now (Record.entriesAt machine place indexName)), after) ∧
        machine.Quiet after := indexed_of_entries (index_entries_exec hi h)

theorem current?_listed (hi : keeper.index = ⟨folder.child indexName⟩)
    (h : Tended folder place holds machine) : ∃ after, keeper.current?.exec machine =
      (.ok (Session.listed machine.now (Record.entriesAt machine place indexName)).head?, after) ∧
        machine.Quiet after := current?_of_entries (index_entries_exec hi h)

/-- Whether carrying out a task drops a subject that is current. -/
def Task.displaces (subject : Text) : Task → Prop
  | .enter session => session.subject ≠ subject
  | .leave => True
  | _ => False

theorem carryOut_facing (tends : keeper.Tends folder place holds)
    (refuses : keeper.factory.Refuses failure keeper.stores folder place) {s : AccountSession}
    (h : Facing failure folder place holds s.subject stock scene)
    (current : (Session.listed stock.now stock.index).head? = some (.account s)) {task : Task}
    (displaces : task.displaces s.subject) :
    (keeper.carryOut task).Ends scene fun outcome after => outcome = .error failure ∧
      Facing failure folder place holds s.subject (stock.without keeper s.subject) after := by
  have passive {α : Type} {action : Action α} {between : Scene} {a : α} {last : Machine}
      (hb : Facing failure folder place holds s.subject stock between)
      (he : action.exec between.machine = (.ok a, last)) (quiet : between.machine.Quiet last) :
      (liftM action : SessionAction α).Ends between fun outcome after => outcome = .ok a ∧
        Facing failure folder place holds s.subject stock after :=
    .lift (.of_exec he ⟨rfl, hb.machine.quiet tends quiet, hb.client⟩)
  cases task with
  | enter session =>
    obtain ⟨rest, listed⟩ := List.head?_eq_some_iff.mp current
    obtain ⟨last, he, quiet⟩ := indexed_listed tends.index h.machine.tended
    rw [h.machine.now, h.machine.index, listed] at he
    have other : (Session.account s).subject ≠ session.subject := fun same => displaces same.symm
    refine .bind_ok (passive h he quiet) fun between hb => ?_
    rw [dropOthers, if_pos other]
    refine .bind_failed (.bind_ok (passive hb rfl (.of_passive (.log _ _ _) _)) fun later hl => ?_)
    exact .bind_failed (drop_facing tends refuses hl)
  | leave =>
    obtain ⟨last, he, quiet⟩ := current?_listed tends.index h.machine.tended
    rw [h.machine.now, h.machine.index, current] at he
    exact .bind_ok (passive h he quiet) fun between hb =>
      .bind_failed (drop_facing tends refuses hb)
  | add session => exact displaces.elim
  | forget id => exact displaces.elim

theorem prepare_facing (tends : keeper.Tends folder place holds)
    (refuses : keeper.factory.Refuses failure keeper.stores folder place)
    (h : Facing failure folder place holds subject stock scene) (c : Change) :
    (keeper.prepare c).Ends scene fun outcome after =>
      Attended (fun _ => True) (·.Refuses failure folder place) after ∧
        ∀ task, outcome = .ok task → task.displaces subject →
          Stocked folder place holds subject stock after.machine := by
  refine (prepare_ends (J := Stocked folder place holds subject stock) (E := fun _ => True)
    (R := fun other machine => subject ≠ other → Stocked folder place holds subject stock machine)
    (fun _ _ hm quiet => hm.quiet tends quiet) (fun machine hm => ?_)
    (fun client refusing handle machine hm => ⟨fun authorization ho other => ?_, trivial⟩)
    (fun _ _ _ hr _ quiet => ⟨fun other => (hr other).quiet tends quiet, trivial⟩)
    (fun _ _ => trivial) h c).mono fun outcome after ha => ⟨ha.1, fun task ho displaces => ?_⟩
  · obtain ⟨stocked, made, same, refusing⟩ := makes_stocked tends refuses hm
    exact ⟨stocked, fun client ho => Except.ok.inj (same.symm.trans ho) ▸ refusing⟩
  · have only := (refusing.away.authorize place handle).confined machine hm.tended.ground
    refine hm.elsewhere tends (hm.tended.ground.exec rfl only)
      (only.mono fun name hn reserved => hn (.inl reserved))
      ((refusing.away.authorize place handle).keychain machine hm.tended.ground)
      (Machine.SameCircumstances.of_exec _ machine).now ?_
    exact refusing.authorize handle machine hm.tended.ground authorization _ (Prod.ext ho rfl)
      subject other
  · have ready := ha.2 task ho
    cases task with
    | enter session =>
      cases session with
      | account s => exact ready fun same => displaces same.symm
      | worker s => exact ready
    | add session => exact ready
    | leave => exact ready
    | forget id => exact ready

/-- A change that would drop the current account fails once the lock was taken, and that account is
gone from the index and the passphrases. -/
theorem change_facing (tends : keeper.Tends folder place holds)
    (refuses : keeper.factory.Refuses failure keeper.stores folder place) {s : AccountSession}
    (h : Facing failure folder place holds s.subject stock scene)
    (current : (Session.listed stock.now stock.index).head? = some (.account s)) {c : Change}
    {task : Task} {later : Option OAuth.Client} {between : Machine}
    (prepared : (keeper.prepare c).exec scene.client scene.machine = (.ok task, later, between))
    (displaces : task.displaces s.subject) {marker : Lock.Marker} {taken : Machine}
    (acquired : (keeper.lock.acquire lockKey).exec between = (.ok marker, taken)) :
    (keeper.change c).Ends scene fun outcome after => outcome = .error failure ∧
      Facing failure folder place holds s.subject (stock.without keeper s.subject) after := by
  have ready := prepare_facing tends refuses h c
  unfold SessionAction.Ends at ready
  rw [prepared] at ready
  have stocked := ready.2 task rfl displaces
  have file := not_isReserved_marker.1
  have only := Lock.acquire_confined tends.lock fileName?_lockKey file between stocked.tended.ground
  have keychain := Lock.acquire_keychain keeper.lock lockKey between
  rw [acquired] at only keychain
  have facing : Facing failure folder place holds s.subject stock ⟨later, taken⟩ :=
    ⟨stocked.marked tends acquired only keychain, ready.1.client⟩
  have own := Lock.acquire_yields tends.lock stocked.tended.ground fileName?_lockKey file marker
    taken acquired
  have held : (keeper.lock.holding lockKey (keeper.carryOut task)).Ends ⟨later, between⟩
      fun outcome after => outcome = .error failure ∧
        Facing failure folder place holds s.subject (stock.without keeper s.subject) after := by
    refine .holding (T := fun found machine => found = marker ∧ machine = taken) ?_ ?_
    · unfold Action.Ends
      rw [acquired]
      exact ⟨rfl, rfl⟩
    · rintro found machine ⟨rfl, rfl⟩
      have marked : Locked folder place (machine.under place markName) ⟨later, machine⟩ :=
        ⟨⟨facing.machine.tended.ground, rfl⟩, fun c hc => (facing.client c hc).away⟩
      have kept := tends.toLiesIn.sustains_marked.carryOut marked task
      refine ((carryOut_facing tends refuses facing current displaces).and kept).mono ?_
      rintro outcome last ⟨⟨rfl, hl⟩, mark⟩
      obtain ⟨after, he, only, keychain⟩ := Lock.release_returns tends.lock hl.machine.tended.ground
        (own.key ▸ fileName?_lockKey) file (own.stands.of_under mark.machine.mark)
      exact .of_exec he ⟨rfl, hl.machine.marked tends he only keychain, hl.client⟩
  have ended : (keeper.changeInParts c).Ends scene fun outcome after => outcome = .error failure ∧
      Facing failure folder place holds s.subject (stock.without keeper s.subject) after := by
    refine .bind_ok (S := (· = ⟨later, between⟩)) ?_ ?_ (a := task)
    · unfold SessionAction.Ends
      rw [prepared]
      exact ⟨rfl, rfl⟩
    · rintro _ rfl
      exact .bind_failed held
  unfold SessionAction.Ends at ended ⊢
  rwa [change_exec]

/-- What is loaded where the subject was dropped is the session of another subject, and nothing
where the index had no other session. -/
theorem load_without (hi : keeper.index = ⟨folder.child indexName⟩)
    (h : Stocked folder place holds subject (stock.without keeper subject) machine)
    (filed : Session.AreFiled stock.index) :
    (keeper.load.Yields machine fun found _ =>
      ∀ session, found = some session → session.subject ≠ subject) ∧
    ((∀ other ∈ Session.listed stock.now stock.index, other.subject = subject) →
      ∃ after, keeper.load.exec machine = (.ok none, after)) := by
  obtain ⟨between, found, -⟩ := current?_listed hi h.tended
  rw [h.now, h.index] at found
  have left := Session.listed_remove filed stock.now subject
  rw [Stock.without, left] at found
  constructor
  · unfold load
    refine .bind (P := fun current _ => ∀ session, current = some session →
      session.subject ≠ subject) (.of_exec found fun current ho session hs => ?_)
      fun current _ others => ?_
    · have first := Except.ok.inj ho
      rw [hs] at first
      have mem := List.mem_of_mem_head? (Option.mem_def.mpr first)
      simpa using (List.mem_filter.mp mem).2
    · cases current with
      | none => exact .pure fun _ ho => by cases ho
      | some session =>
        refine .bind (hydrate_subject keeper session _) fun hydrated _ same => .pure ?_
        rintro _ ⟨⟩
        rw [same]
        exact others session rfl
  · intro alone
    have none_left : (Session.listed stock.now stock.index).filter
        (fun session => session.subject ≠ subject) = [] :=
      List.filter_eq_nil_iff.mpr fun other ho => by simpa using alone other ho
    rw [none_left] at found
    exact ⟨between, Action.exec_bind_ok found⟩

/-- A change that would drop the current account, and that was prepared and given the lock, fails
where the client refuses to revoke. The workers, all other entries of the index and all other
secrets are as they were, and so is the token set of the account. Its entry and its passphrase are
gone: loading finds the session of another subject, or none where there was no other one. -/
theorem change_is_refused {options : Options} {origin start : Machine}
    (made : (make folder options).exec origin = (.ok keeper, start))
    (ground : Ground origin folder place) (empty : ∀ name, origin.under place name = none)
    (service : options.secretService.IsJoined)
    (away : (options.secrets.getD (.ofVault (.inFolder folder))).KeepsAway folder)
    (steady : (options.secrets.getD (.ofVault (.inFolder folder))).IsSteady folder place holds)
    (blank : holds origin .empty)
    (refuses : options.factory.Refuses failure keeper.stores folder place)
    (reached : Reached keeper folder place start before) {client : Option OAuth.Client}
    (present : ∀ c, client = some c → c.Refuses failure folder place) {s : AccountSession}
    {looked : Machine} (current : keeper.current?.exec before = (.ok (some (.account s)), looked))
    {c : Change} {task : Task} {later : Option OAuth.Client} {between : Machine}
    (prepared : (keeper.prepare c).exec client before = (.ok task, later, between))
    (displaces : task.displaces s.subject) {marker : Lock.Marker} {taken : Machine}
    (acquired : (keeper.lock.acquire lockKey).exec between = (.ok marker, taken)) :
    ∃ last after ledger, (keeper.change c).exec client before = (.error failure, last, after) ∧
      after.under place workersName = before.under place workersName ∧
      Record.entriesAt after place indexName =
        (Record.entriesAt before place indexName).remove s.subject ∧
      holds before ledger ∧ holds after (ledger.remove keeper.passphraseService s.subject) ∧
      tokenSet? after place s.subject = tokenSet? before place s.subject ∧
      (∀ session last, keeper.load.exec after = (.ok (some session), last) →
        session.subject ≠ s.subject) ∧
      ((∀ other ∈ Session.listed before.now (Record.entriesAt before place indexName),
        other.subject = s.subject) → ∃ last, keeper.load.exec after = (.ok none, last)) := by
  obtain ⟨tends, tended⟩ :=
    tended_of_made made ground empty service away steady blank refuses.keepsAway reached
  have refuses : keeper.factory.Refuses failure keeper.stores folder place :=
    (madeIn_of_make made).1.factory ▸ refuses
  obtain ⟨ledger, held⟩ := tended.secrets
  have stocked : Stocked folder place holds s.subject ⟨before.now,
      Record.entriesAt before place indexName, before.under place workersName, ledger,
      tokenSet? before place s.subject⟩ before := ⟨tended, rfl, rfl, rfl, held, rfl⟩
  obtain ⟨looked', found, -⟩ := current?_listed tends.index tended
  have first := Except.ok.inj (Prod.mk.inj (found.symm.trans current)).1
  have facing : Facing failure folder place holds s.subject _ ⟨client, before⟩ := ⟨stocked, present⟩
  have ended := change_facing tends refuses facing first prepared displaces acquired
  unfold SessionAction.Ends at ended
  rcases he : (keeper.change c).exec client before with ⟨outcome, last, after⟩
  rw [he] at ended
  obtain ⟨rfl, left⟩ := ended
  obtain ⟨entries, filed⟩ := tended.index
  have filed : Session.AreFiled (Record.entriesAt before place indexName) := by
    rw [filed.1.entriesAt_eq]
    exact filed.2
  obtain ⟨others, alone⟩ := load_without tends.index left.machine filed
  exact ⟨last, after, ledger, rfl, left.machine.workers, left.machine.index, held,
    left.machine.secrets, left.machine.tokens, fun session last hl => others _ last hl session rfl,
    alone⟩

/-- A client like the steady one that refuses to revoke. -/
def stubbornFactory : OAuth.Factory := fun stores => do
  let client ← steadyFactory stores
  return { client with revoke := fun _ => throw .revokeRefused }

theorem stubbornFactory_refuses {stores : OAuth.Stores}
    (tokens : stores.sessions = ⟨folder.child tokensName⟩) :
    stubbornFactory.Refuses .revokeRefused stores folder place := by
  refine ⟨fun _ => ⟨.pure _, fun _ _ => rfl⟩,
    fun machine => ⟨_, machine, rfl, ⟨⟨?_, ?_⟩, ?_, ?_⟩, fun _ => rfl⟩⟩
  · intro place handle
    rw [tokens]
    exact (tokens_put_respects _ _).bind fun _ => .pure _
  · exact fun place subject => ⟨.of_passive (.throw _), fun _ _ => rfl⟩
  · exact fun subject machine => ⟨machine, rfl, .refl machine⟩
  · intro handle machine g
    rw [tokens]
    have name : Tree.IsFileName tokensName := ⟨by decide, by decide⟩
    have put := Record.Store.put_yields g name (by decide : Text.IsJoined "did:plc:a")
      isRegular_accessToken
    refine .bind put fun _ between wrote => .pure fun subject other => ?_
    rw [tokenSet?, wrote.entries, Assoc.value?_put, if_neg fun same => other same.symm]
    rfl

theorem stubbornFactory_keepsAway {stores : OAuth.Stores}
    (tokens : stores.sessions = ⟨folder.child tokensName⟩) :
    stubbornFactory.KeepsAway stores folder :=
  have refuses : stubbornFactory.Refuses .revokeRefused stores folder [] :=
    stubbornFactory_refuses tokens
  refuses.keepsAway

end Keeper

end

namespace Keeper

open scoped SessionKeeper.Runtime

/-- Making a keeper for the empty folder with that client. -/
def stubbornMade : Except Failure Keeper × Machine :=
  (make ⟨"/", ["home"]⟩ { factory := stubbornFactory }).exec Machine.bare

/-- The keeper of the empty folder with that client. -/
def stubbornKeeper : Keeper := stubbornMade.1.toOption.get (by decide +kernel)

/-- The machine after an account was logged in on the empty folder. -/
def stubbornEntered : Machine :=
  ((stubbornKeeper.change (.login "a" true)).exec none stubbornMade.2).2.2

def isRefusal {α : Type} : Except Failure α → Bool
  | .error .revokeRefused => true
  | _ => false

theorem eq_of_isRefusal {α : Type} {outcome : Except Failure α} (h : isRefusal outcome = true) :
    outcome = .error .revokeRefused := by
  rw [isRefusal.eq_def] at h
  split at h
  · rfl
  · cases h

/-- Clearing a session that was loaded before fails because of the revocation, and afterwards no
session is loaded. -/
theorem clear_loses_session :
    stubbornFactory.Refuses .revokeRefused stubbornKeeper.stores ⟨"/", ["home"]⟩ ["home"] ∧
    let cleared := (stubbornKeeper.change .clear).exec none stubbornEntered
    (stubbornKeeper.load.exec stubbornEntered).1.toOption =
      some (some (.account ⟨"did:plc:a", "a", some "p"⟩)) ∧
    cleared.1 = .error .revokeRefused ∧
    (stubbornKeeper.load.exec cleared.2.2).1.toOption = some none := by
  have made : (make ⟨"/", ["home"]⟩ { factory := stubbornFactory }).exec Machine.bare =
      (.ok stubbornKeeper, stubbornMade.2) := (eq_ok_get _ : stubbornMade = _)
  obtain ⟨own, -⟩ := madeIn_of_make made
  refine ⟨stubbornFactory_refuses own.tokens, ?_, eq_of_isRefusal ?_, ?_⟩ <;> decide +kernel

/-- Where the client refuses, clearing the session of the account that was logged in on the empty
folder takes out its entry and nothing else. -/
theorem clear_is_refused : ∃ last after, (stubbornKeeper.change .clear).exec none stubbornEntered =
      (.error .revokeRefused, last, after) ∧
    Record.entriesAt after ["home"] indexName =
      (Record.entriesAt stubbornEntered ["home"] indexName).remove "did:plc:a" ∧
    ∀ session last, stubbornKeeper.load.exec after = (.ok (some session), last) →
      session.subject ≠ "did:plc:a" := by
  have made : (make ⟨"/", ["home"]⟩ { factory := stubbornFactory }).exec Machine.bare =
      (.ok stubbornKeeper, stubbornMade.2) := (eq_ok_get _ : stubbornMade = _)
  have current : (stubbornKeeper.current?.exec stubbornEntered).1.toOption =
      some (some (.account ⟨"did:plc:a", "a", none⟩)) := by decide +kernel
  have free : ((stubbornKeeper.lock.acquire lockKey).exec stubbornEntered).1.isOk = true := by
    decide +kernel
  obtain ⟨own, -⟩ := madeIn_of_make made
  have lies : stubbornKeeper.LiesIn ⟨"/", ["home"]⟩ := .of_make made (Secret.Vault.keepsAway _)
    fun _ tokens => stubbornFactory_keepsAway tokens
  have nobody {P : OAuth.Client → Prop} : ∀ c, (none : Option OAuth.Client) = some c → P c :=
    fun _ hc => by cases hc
  have reached : Reached stubbornKeeper ⟨"/", ["home"]⟩ ["home"] stubbornMade.2 stubbornEntered :=
    .change ⟨rfl, rfl, rfl, rfl⟩ lies nobody (.login "a" true) .start
  have blank : Secret.Vault.HoldsLedger ["home"] Machine.bare .empty :=
    ⟨[], .inl ⟨rfl, Machine.under_bare _⟩, rfl⟩
  generalize stubbornEntered = entered at current free reached ⊢
  rcases hc : stubbornKeeper.current?.exec entered with ⟨_ | found, looked⟩ <;> rw [hc] at current
  · cases current
  · obtain rfl : found = some (.account ⟨"did:plc:a", "a", none⟩) := Option.some.inj current
    rcases ha : (stubbornKeeper.lock.acquire lockKey).exec entered with ⟨_ | marker, taken⟩ <;>
      rw [ha] at free
    · cases free
    · have prepared : (stubbornKeeper.prepare .clear).exec none entered =
          (.ok .leave, none, entered) := rfl
      obtain ⟨last, after, -, he, -, index, -, -, -, others, -⟩ :=
        change_is_refused made Machine.ground_bare Machine.under_bare (by decide)
          (Secret.Vault.keepsAway _) (Secret.Vault.isSteady _ _) blank
          (stubbornFactory_refuses own.tokens) reached nobody hc prepared trivial ha
      exact ⟨last, after, he, index, others⟩

end Keeper

end SessionKeeper
