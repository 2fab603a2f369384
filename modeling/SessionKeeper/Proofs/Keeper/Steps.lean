import SessionKeeper.Proofs.Keeper.Parts
import SessionKeeper.Proofs.Record.Atomic

/-!
# The steps of a keeper

What a keeper has changes in single steps: one for every write to the index, the workers or the
backend. All else that is done meanwhile leaves it as it is, the marker of the session lock and the
token sets being files of their own.
-/
namespace SessionKeeper

variable [Runtime]

namespace Lock

variable {folder : Path} {place : Location} {lock : Lock} {name : String} {key : Text}
  {names : String → Prop}

omit [Runtime] in
theorem unlink_isStill (hn : Tree.IsFileName name) (own : names name) :
    (Action.ask (.unlink (folder.child name))).IsStill folder place names := by
  refine .ask fun machine g => ⟨(Ground.unlink_confined hn machine g).mono ?_, ?_⟩
  · rintro _ rfl
    exact own
  · exact Record.unlink_keychain (folder.child name) machine

omit [Runtime] in
theorem clearWay_isStill (hn : Tree.IsFileName name) (own : names name)
    (existing : Option Marker) :
    (clearWay (folder.child name) existing).IsStill folder place names := by
  refine Action.IsStill.bind (.of_looks (isBlocked_looks _ existing)) fun blocked => ?_
  split
  · refine .bind (.bind (unlink_isStill hn own) fun removed => ?_) fun _ => .pure _
    split
    · exact .pure _
    · exact .pure _
    · exact .throw _
  · exact .pure _

theorem create_isStill (hf : lock.folder = folder) (hn : Tree.IsFileName name) (own : names name)
    (marker : Marker) : (lock.create (folder.child name) marker).IsStill folder place names := by
  have beside {machine m : Machine} {node : Option Node} (h : ∀ l, m.tree.node? l =
      if place ++ [name] = l then node else machine.tree.node? l)
      (keychain : m.keychain = machine.keychain) (now : m.now = machine.now) :
      machine.DiffersIn place names m :=
    ⟨fun l hl => by rw [h, if_neg fun heq => hl _ own heq.symm], keychain, now⟩
  rw [create, hf]
  refine Action.IsStill.bind (.of_looks Folder.ensure_looks) fun _ machine g => ?_
  have make : machine.answer (.createFile (folder.child name) Record.privateMode) = _ :=
    g.create_child hn Record.privateMode
  cases hu : machine.under place name with
  | some node =>
    rw [hu] at make
    refine .ask_bind make ⟨g, .refl machine⟩ ?_
    exact Action.IsStill.of_looks (refuse_looks marker.key _) machine g
  | none =>
    rw [hu] at make
    have gmade := g.answer make (Ground.changedOnly_withFile name _ [] hu)
    have made := beside (Ground.node?_withFile machine name (Tree.masked Record.privateMode) [])
      rfl rfl
    refine .ask_bind make ⟨gmade, made⟩ ?_
    dsimp only
    split
    · rename_i content _
      exact .ask ⟨gmade.kept_writeFile _ content, beside
        (Ground.node?_filled g.numbered place name (Tree.masked Record.privateMode) content) rfl rfl⟩
    · exact .throw _

/-- Taking a lock leaves all files but its marker alone at every moment. -/
theorem acquire_isStill (hf : lock.folder = folder) (hk : fileName? key = some name)
    (hn : Tree.IsFileName name) (own : names name) :
    (lock.acquire key).IsStill folder place names := by
  rw [acquire_eq (markerPath_eq hf hk)]
  refine .bind (.of_looks (readMarkerAt_looks _)) fun existing => ?_
  refine .bind .now fun now => ?_
  refine .bind (.of_looks (pass_looks lock key now existing)) fun _ => ?_
  refine .bind (clearWay_isStill hn own existing) fun _ => ?_
  refine .bind (create_isStill hf hn own _) fun _ => ?_
  exact .bind (.log _ _ _) fun _ => .pure _

/-- So does giving it back. -/
theorem release_isStill (hf : lock.folder = folder) {marker : Marker}
    (hk : fileName? marker.key = some name) (hn : Tree.IsFileName name) (own : names name) :
    (lock.release marker).IsStill folder place names := by
  rw [release_eq (markerPath_eq hf hk)]
  refine .bind (.of_looks (readMarkerAt_looks _)) fun current => ?_
  rw [giveBack]
  split
  · exact .log _ _ _
  · refine .bind (unlink_isStill hn own) fun result => ?_
    split <;> exact .log _ _ _

end Lock

/-- That a backend writes in single steps and reads without changing anything. -/
structure Secret.Backend.IsAtomic (folder : Path) (place : Location) (secrets : Backend) :
    Prop where
  get? : ∀ service account, (secrets.get? service account).IsStill folder place IsTemporary
  put : ∀ service account secret, (secrets.put service account secret).IsAtomic folder place
  remove : ∀ service account, (secrets.remove service account).IsAtomic folder place

namespace Secret

variable {folder : Path} {place : Location}

theorem Vault.isAtomic : (Backend.ofVault (.inFolder folder)).IsAtomic folder place where
  get? _ _ := (Record.Store.entries_isStill _).bind fun _ => .pure _
  put _ _ _ := (Record.Store.entries_isStill _).bind_isAtomic fun _ =>
    Record.Store.replace_isAtomic isRecordName.file _
  remove service account := by
    refine (Record.Store.entries_isStill _).bind_isAtomic fun entries => ?_
    split
    · exact (Action.IsStill.pure _).isAtomic
    · split
      · exact Record.Store.replace_isAtomic isRecordName.file _
      · exact (Action.IsStill.pure _).isAtomic

omit [Runtime] in
theorem Backend.platform_isAtomic : Backend.platform.IsAtomic folder place := by
  have stays {machine after : Machine} (g : Ground machine folder place)
      (tree : after.tree = machine.tree) (directory : after.directory = machine.directory) :
      Ground after folder place := by
    refine ⟨?_, ?_, ?_⟩
    · rw [tree, directory]
      exact g.leads
    · rw [tree]
      exact g.stands
    · rw [tree]
      exact g.numbered
  refine ⟨fun _ _ => .ask_tree fun _ => ⟨rfl, rfl⟩, fun _ _ _ => .ask fun _ g => stays g rfl rfl,
    fun _ _ => ?_⟩
  refine (Action.IsAtomic.ask fun _ g => stays g rfl rfl).bind_isStill fun wasThere => ?_
  split
  · exact .log _ _ _
  · exact .pure _

end Secret

namespace Keeper

def IsForeign (name : String) : Prop := name ∉ ownNames

omit [Runtime] in
theorem isForeign_of_isTemporary {name : String} (h : IsTemporary name) : IsForeign name := by
  have last : ∀ own ∈ ownNames, own.toList.getLast? ≠ some 'p' := by decide
  obtain ⟨stem, k, rfl⟩ := h
  intro own
  refine last _ own ?_
  simp only [Machine.temporaryName, String.toList_append, List.getLast?_append]
  rfl

end Keeper

/-- That a client leaves the keeper's files alone at every moment. -/
structure OAuth.Client.IsStill (folder : Path) (place : Location) (client : OAuth.Client) :
    Prop where
  authorize : ∀ handle, (client.authorize handle).IsStill folder place Keeper.IsForeign
  revoke : ∀ subject, (client.revoke subject).IsStill folder place Keeper.IsForeign

/-- That making a client leaves them alone at every moment, and makes one of that kind. -/
structure OAuth.Factory.IsStill (factory : OAuth.Factory) (stores : OAuth.Stores) (folder : Path)
    (place : Location) : Prop where
  makes : (factory stores).IsStill folder place Keeper.IsForeign
  made : ∀ machine client after, (factory stores).exec machine = (.ok client, after) →
    client.IsStill folder place

namespace Keeper

variable {keeper : Keeper} {folder : Path} {place : Location} {names : String → Prop}
  {scene : Scene}

theorem indexed_isStill (keeper : Keeper) : keeper.indexed.IsStill folder place names :=
  .of_asks (indexed_asks (fun _ _ => ⟨rfl, rfl⟩) (fun _ => ⟨rfl, rfl⟩) fun _ => ⟨rfl, rfl⟩)

theorem current?_isStill (keeper : Keeper) : keeper.current?.IsStill folder place names :=
  .of_asks (current?_asks (fun _ _ => ⟨rfl, rfl⟩) (fun _ => ⟨rfl, rfl⟩) fun _ => ⟨rfl, rfl⟩)

theorem screen_passes {J : Machine → Prop} (looks : keeper.current?.Passes scene.machine J)
    (handle : Text) (replace : Bool) : (keeper.screen handle replace).Passes scene J := by
  unfold screen
  by_cases blank : handle.isEmpty = true
  · rw [if_pos blank]
    exact .bind (.throw _) fun _ _ _ he => by cases he
  · rw [if_neg blank]
    refine .bind_lift looks fun found _ _ => ?_
    cases found with
    | none => exact .pure _
    | some current =>
      dsimp only
      split_ifs
      · exact .throw _
      · exact .pure _

omit [Runtime] in
/-- Making a worker passes through what the look at the clock does. -/
theorem enroll_passes {J : Machine → Prop} (looks : Action.now.Passes scene.machine J)
    (id name secret : Text) : (enroll id name secret).Passes scene J := by
  unfold enroll
  by_cases empty : secret.isEmpty = true
  · rw [if_pos empty]
    exact .bind (.throw _) fun _ _ _ he => by cases he
  · rw [if_neg empty]
    refine .bind_lift looks fun now _ _ => ?_
    cases Worker.make id name secret now with
    | error issues => exact .bind (.throw _) fun _ _ _ he => by cases he
    | ok worker => exact .bind_step (.pure worker) rfl (.pure _)

theorem isRegistered_isStill (secrets : keeper.secrets.IsAtomic folder place) (id : Text) :
    (keeper.isRegistered id).IsStill folder place IsTemporary := by
  refine (Record.Store.get?_isStill keeper.workers id).bind fun record => ?_
  split
  · exact .pure _
  · exact (secrets.get? _ _).bind fun _ => .pure _

theorem hydrate_isStill (secrets : keeper.secrets.IsAtomic folder place) (session : Session) :
    (keeper.hydrate session).IsStill folder place IsTemporary := by
  unfold hydrate
  cases session with
  | account s => exact (secrets.get? _ _).bind fun _ => .pure _
  | worker s =>
    have registered : (keeper.registered s.worker).IsStill folder place IsTemporary :=
      .of_asks (registered_asks (fun _ _ => ⟨rfl, rfl⟩) (fun _ => ⟨rfl, rfl⟩) (fun _ => ⟨rfl, rfl⟩) _)
    refine registered.bind fun worker => (secrets.get? _ _).bind fun secret => ?_
    dsimp only
    split
    · exact .bind (.log _ _ _) fun _ => .pure _
    · exact .pure _

theorem load_isStill (secrets : keeper.secrets.IsAtomic folder place) :
    keeper.load.IsStill folder place IsTemporary := by
  refine (current?_isStill keeper).bind fun found => ?_
  split
  · exact .pure _
  · exact (hydrate_isStill secrets _).bind fun _ => .pure _

/-- That the folder stands and none of the keeper's own files differs. -/
structure Intact (folder : Path) (place : Location) (before after : Machine) : Prop where
  ground : Ground after folder place
  differs : before.DiffersIn place IsForeign after

omit [Runtime] in
theorem Intact.refl {machine : Machine} (g : Ground machine folder place) :
    Intact folder place machine machine := ⟨g, .refl machine⟩

omit [Runtime] in
theorem Intact.still {α : Type} {before machine : Machine} (h : Intact folder place before machine)
    {action : Action α} (still : action.IsStill folder place IsForeign) :
    action.Passes machine (Intact folder place before) :=
  (still machine h.ground).mono fun _ ⟨gm, differs⟩ => ⟨gm, h.differs.trans differs⟩

omit [Runtime] in
/-- A client is there or is made, and nothing else is done. -/
theorem client_passes {J : Machine → Prop}
    (makes : (keeper.factory keeper.stores).Passes scene.machine J) : keeper.client.Passes scene J := by
  obtain ⟨client, machine⟩ := scene
  cases client with
  | some client => exact Script.Passes.done _
  | none =>
    show ((liftM (keeper.factory keeper.stores) : SessionAction OAuth.Client) >>= fun client => do
      set (some client)
      return client).Passes ⟨none, machine⟩ J
    exact .bind (.lift makes) fun _ _ _ _ => Script.Passes.done _

variable {before : Machine}

/-- A scene in which none of the keeper's own files differs, with a client that is still. -/
abbrev Undisturbed (folder : Path) (place : Location) (before : Machine) : Scene → Prop :=
  Attended (Intact folder place before) (·.IsStill folder place)

omit [Runtime] in
theorem makes_intact (still : keeper.factory.IsStill keeper.stores folder place)
    (machine : Machine) (h : Intact folder place before machine) :
    (keeper.factory keeper.stores).Ends machine fun outcome after =>
      Intact folder place before after ∧
        ∀ client, outcome = .ok client → client.IsStill folder place :=
  ⟨(h.still still.makes).exec h, fun client ho => still.made machine client _ (Prod.ext ho rfl)⟩

omit [Runtime] in
/-- What respects the keeper's files and is done in one step leaves them alone at every moment. -/
theorem isStill_of_respects {action : Action Unit} (respects : action.Respects folder place)
    (atomic : action.IsAtomic folder place) : action.IsStill folder place IsForeign :=
  atomic.isStill respects.confined (fun _ hn own => hn (.inl (isReserved_of_mem own)))
    (fun _ => isForeign_of_isTemporary) respects.keychain

theorem tokens_remove_isStill (subject : Text) :
    (Record.Store.remove ⟨folder.child tokensName⟩ subject).IsStill folder place IsForeign :=
  isStill_of_respects (tokens_remove_respects subject)
    (Record.Store.remove_isAtomic ⟨by decide, by decide⟩ subject)

theorem tokens_put_isStill (subject : Text) (value : Json) :
    (Record.Store.put ⟨folder.child tokensName⟩ subject value).IsStill folder place IsForeign :=
  isStill_of_respects (tokens_put_respects subject value)
    (Record.Store.put_isAtomic ⟨by decide, by decide⟩ subject value)

/-- Dropping tokens touches none of the keeper's own files at any moment. -/
theorem dropTokens_passes (still : keeper.factory.IsStill keeper.stores folder place)
    (tokens : keeper.stores.sessions = ⟨folder.child tokensName⟩)
    (h : Undisturbed folder place before scene) (subject : Text) :
    (keeper.dropTokens subject).Passes scene (Intact folder place before) := by
  refine .bind_ends (.tryCatch (.bind (client_passes (h.machine.still still.makes))
    fun _ _ _ _ => .pure _) fun failure _ _ _ => ?_) (sought_attended (makes_intact still) h)
    fun made between hb => ?_
  · split
    · exact .pure _
    · exact .throw _
  cases made with
  | some client => exact .lift (hb.1.machine.still ((hb.2 client rfl).revoke subject))
  | none =>
    have removes : (keeper.stores.sessions.remove subject).IsStill folder place IsForeign :=
      tokens ▸ tokens_remove_isStill subject
    exact .lift (hb.1.machine.still removes)

/-- Neither does authorizing, with the request to the keyserver after it. -/
theorem authorize_passes (still : keeper.factory.IsStill keeper.stores folder place)
    (h : Undisturbed folder place before scene) (handle : Text) :
    (keeper.authorize handle).Passes scene (Intact folder place before) ∧
      (keeper.authorize handle).Ends scene fun _ after => Undisturbed folder place before after := by
  have fetch (token : Option Text) :
      (keeper.keyserver.fetchPassphrase token).IsStill folder place IsForeign :=
    .of_asks (fetchPassphrase_asks (fun _ _ => ⟨rfl, rfl⟩) (fun _ _ => ⟨rfl, rfl⟩) _ _)
  have lifted {α : Type} {action : Action α} {scene : Scene}
      (h : Undisturbed folder place before scene)
      (still : action.IsStill folder place IsForeign) :
      (liftM action : SessionAction α).Ends scene fun _ after => Undisturbed folder place before after :=
    .lift ⟨(h.machine.still still).exec h.machine, h.client⟩
  have found := client_attended (makes_intact still) h
  constructor
  · refine .bind_ends (client_passes (h.machine.still still.makes)) found fun client between hb => ?_
    have authorizes := (hb.2 client rfl).authorize handle
    refine .bind_ends (.lift (hb.1.machine.still authorizes)) (lifted hb.1 authorizes)
      fun authorization later hl => ?_
    exact .bind (.lift (hl.machine.still (fetch _))) fun _ _ _ _ => .pure _
  · refine .bind found (fun client between hb => ?_) fun _ _ hb => hb.1
    refine .bind (lifted hb.1 ((hb.2 client rfl).authorize handle)) (fun authorization later hl => ?_)
      fun _ _ hl => hl
    exact .bind (lifted hl (fetch _)) (fun _ _ ha => .pure ha) fun _ _ ha => ha

/-- The client that a change leaves is the one that was there or one that the factory made. -/
theorem client_of_perform {fits : OAuth.Client → Prop}
    (makes : ∀ machine client after,
      (keeper.factory keeper.stores).exec machine = (.ok client, after) → fits client)
    (present : ∀ client, scene.client = some client → fits client) (operation : Operation) :
    (keeper.perform operation).Ends scene fun _ after =>
      ∀ client, after.client = some client → fits client := by
  have sustains : keeper.Sustains (fun _ => True) fits := {
    quiet := fun _ _ _ _ => trivial
    makes := fun machine _ => ⟨trivial, fun client ho => makes machine client _ (Prod.ext ho rfl)⟩
    authorizes := fun _ _ _ _ _ => trivial
    revokes := fun _ _ _ _ _ => trivial
    enters := fun _ _ _ => trivial
    strikes := fun _ _ _ => trivial
    registers := fun _ _ _ => trivial
    dismisses := fun _ _ _ => trivial
    discards := fun _ _ _ => trivial
    looks := fun _ _ _ _ => trivial
    stores := fun _ _ _ _ _ _ => trivial
    forgets := fun _ _ _ _ => trivial }
  have changed (c : Change) : ∀ client,
      ((keeper.change c).exec scene.client scene.machine).2.1 = some client → fits client :=
    (sustains.change (T := fun _ => True) (fun _ _ => ⟨trivial, fun _ _ => trivial⟩)
      (fun _ _ _ _ => trivial) ⟨trivial, present⟩ c).client
  have same {α β : Type} (x : SessionAction α) (f : α → β) :
      ((x >>= fun a => pure (f a)).exec scene.client scene.machine).2.1 =
        (x.exec scene.client scene.machine).2.1 := by
    rw [SessionAction.exec_bind]
    rcases x.exec scene.client scene.machine with ⟨_ | _, _, _⟩ <;> rfl
  intro client hc
  cases operation with
  | login handle replace =>
    exact changed (.login handle replace) client ((same _ _).trans ((same _ _).symm.trans hc))
  | registerWorker id name secret =>
    exact changed (.registerWorker id name secret) client
      ((same _ _).trans ((same _ _).symm.trans hc))
  | clear => exact changed .clear client ((same _ _).trans hc)
  | removeWorker id =>
    exact changed (.removeWorker id) client ((same _ _).trans ((same _ _).symm.trans hc))
  | load => exact present client (by rwa [perform, SessionAction.exec_lift] at hc)

end Keeper

end SessionKeeper
