import SessionKeeper.Proofs.Lock.Outcome
import SessionKeeper.Proofs.Record.InOrder
import SessionKeeper.Proofs.Script.Yields

/-!
# Sections under a lock

A lock that was taken has left a marker file that can be read, whatever stood there before. As
long as that file is left alone, giving the lock back cannot fail, so a section under the lock
ends as what runs in it ends. The keychain has no part in locking.
-/
namespace SessionKeeper.Lock

variable {machine : Machine} {folder : Path} {place : Location} {name : String} {lock : Lock}
  {key : Text}

theorem ensure_keychain (path : Path) : (Folder.ensure path).Keeps Machine.keychain := by
  intro machine
  obtain ⟨outcome, after, he, made⟩ := Folder.ensure_made path machine
  rw [he]
  exact made.keychain

theorem keychain_of_passive {α : Type} {action : Action α} (h : action.IsPassive) :
    action.Keeps Machine.keychain := fun machine => h.keychain machine

variable [Runtime]

theorem create_keychain (lock : Lock) (path : Path) (marker : Marker) :
    (lock.create path marker).Keeps Machine.keychain := by
  refine (ensure_keychain lock.folder).bind fun _ => ?_
  refine .bind (.ask fun machine => ?_) fun made => ?_
  · show (machine.create path Record.privateMode).2.keychain = machine.keychain
    rw [Machine.create]
    split <;> rfl
  · split
    · exact keychain_of_passive (refuse_passive _ _)
    · exact .throw _
    · split
      · exact .ask fun _ => rfl
      · exact .throw _

theorem acquire_keychain (lock : Lock) (key : Text) : (lock.acquire key).Keeps Machine.keychain := by
  cases hk : fileName? key with
  | none =>
    intro machine
    rw [acquire_nameless hk]
  | some name =>
    rw [acquire_eq (markerPath_eq rfl hk)]
    refine (keychain_of_passive (readMarkerAt_passive _)).bind fun existing => ?_
    refine (keychain_of_passive .now).bind fun now => ?_
    refine (keychain_of_passive (pass_passive lock key now existing)).bind fun _ => ?_
    refine .bind (.bind (keychain_of_passive (isBlocked_passive _ existing)) fun blocked => ?_) fun _ => ?_
    · split
      · exact (Record.removeFile_keychain _).bind fun _ => .pure _
      · exact .pure _
    · refine (create_keychain lock _ _).bind fun _ => ?_
      exact (keychain_of_passive (.log _ _ _)).bind fun _ => .pure _

theorem release_keychain (lock : Lock) (marker : Marker) :
    (lock.release marker).Keeps Machine.keychain := by
  cases hk : fileName? marker.key with
  | none =>
    have hp : lock.markerPath marker.key = throw (.unencodable (.utf8 marker.key)) := by
      rw [markerPath, hk]
    intro machine
    rw [release, hp]
    rfl
  | some name =>
    rw [release_eq (markerPath_eq rfl hk)]
    refine (keychain_of_passive (readMarkerAt_passive _)).bind fun current => ?_
    rw [giveBack]
    split
    · exact keychain_of_passive (.log _ _ _)
    · refine (Record.unlink_keychain _).bind fun result => ?_
      split <;> exact keychain_of_passive (.log _ _ _)

theorem refuse_yields {α : Type} (key : Text) (path : Path) (machine : Machine) :
    (refuse key path : Action α).Yields machine fun _ _ => False := by
  refine .bind (P := fun _ _ => True) (fun _ _ _ => trivial) fun found _ _ => ?_
  split
  · refine .bind (P := fun _ _ => True) (fun _ _ _ => trivial) fun now _ _ => ?_
    exact .bind (P := fun _ _ => True) (fun _ _ _ => trivial) fun _ _ _ => .throw
  · exact .throw

theorem create_yields (hf : lock.folder = folder) (g : Ground machine folder place)
    (hn : Tree.IsFileName name) (marker : Marker) :
    (lock.create (folder.child name) marker).Yields machine fun _ after =>
      Stands after place name marker := by
  have ensured := g.ensure_exec
  rw [← hf] at ensured
  have created : machine.answer (.createFile (folder.child name) Record.privateMode) = _ :=
    g.create_child hn Record.privateMode
  cases hu : machine.under place name with
  | some node =>
    intro _ after he
    rw [hu] at created
    rw [Lock.create, Action.exec_bind_ok ensured, Action.exec_ask_bind created] at he
    exact (refuse_yields marker.key _ machine _ after he).elim
  | none =>
    cases ho : Record.octetsOf marker.toJson with
    | error limit =>
      intro _ after he
      rw [hu] at created
      rw [Lock.create, Action.exec_bind_ok ensured, Action.exec_ask_bind created] at he
      simp only [ho] at he
      cases (Prod.mk.inj he).1
    | ok content =>
      obtain ⟨after, he, -, stands, -⟩ := create_exec hf g hn hu ho
      exact .of_exec he fun _ _ => ⟨_, _, content, stands, ho⟩

/-- That taking a lock has left its marker there and touched nothing else. -/
structure Taken (place : Location) (name : String) (key : Text) (before : Machine)
    (marker : Marker) (after : Machine) : Prop where
  only : ChangedOnly place (· = name) before after
  keychain : after.keychain = before.keychain
  key : marker.key = key
  stands : Stands after place name marker

theorem acquire_yields (hf : lock.folder = folder) (g : Ground machine folder place)
    (hk : fileName? key = some name) (hn : Tree.IsFileName name) :
    (lock.acquire key).Yields machine fun marker after => Taken place name key machine marker after := by
  have stands : (lock.acquire key).Yields machine fun marker after =>
      Stands after place name marker := by
    rw [acquire_eq (markerPath_eq hf hk)]
    have still {α : Type} {action : Action α} {before : Machine} (hb : Ground before folder place)
        (confined : action.Confined folder place (· = name)) :
        action.Yields before fun _ after => Ground after folder place :=
      .of_exec rfl fun _ _ => hb.exec rfl (confined before hb)
    refine .bind (still g (.of_passive (readMarkerAt_passive _))) fun existing _ g₁ => ?_
    refine .bind (still g₁ (.of_passive .now)) fun now _ g₂ => ?_
    refine .bind (still g₂ (.of_passive (pass_passive lock key now existing))) fun _ _ g₃ => ?_
    refine .bind (still g₃ (clearWay_confined hn existing)) fun _ _ g₄ => ?_
    refine .bind (create_yields hf g₄ hn _) fun _ between hb => ?_
    refine .bind (P := fun _ after => Stands after place name ⟨key, now, lock.holder⟩)
      (.of_exec rfl fun _ _ => hb.of_under rfl) fun _ after ha => .pure ha
  intro marker after he
  have only := acquire_confined hf hk hn machine g
  have keychain := acquire_keychain lock key machine
  rw [he] at only keychain
  exact ⟨only, keychain, key_of_acquire hf hk he, stands marker after he⟩

theorem exists_tells (numbered : machine.tree.Numbered) (down : name ≠ "..") {marker : Marker}
    {after : Machine}
    (h : (readMarkerAt (folder.child name)).exec machine = (.ok (some marker), after)) :
    ∃ place, Ground machine folder place ∧ Tree.IsFileName name ∧
      Tells machine place name marker := by
  have asked : machine.answer (.readFile (folder.child name)) =
      (machine.tree.read machine.directory (folder.child name), machine) := rfl
  rw [readMarkerAt, Record.read, bind_assoc, Action.exec_ask_bind asked] at h
  cases hf : machine.tree.find machine.directory (folder.child name) with
  | error fault =>
    have unread : machine.tree.read machine.directory (folder.child name) = .error fault := by
      rw [Tree.read, hf]
      rfl
    rw [unread] at h
    cases fault <;> cases h
  | ok found =>
    obtain ⟨l, node⟩ := found
    obtain ⟨place, g, hn, hu⟩ := Record.exists_ground numbered down hf
    refine ⟨place, g, hn, ?_⟩
    cases node with
    | directory mode =>
      have unread : machine.tree.read machine.directory (folder.child name) =
          .error .isDirectory := by
        rw [Tree.read, hf]
        rfl
      rw [unread] at h
      cases h
    | file number mode content =>
      have found : machine.tree.read machine.directory (folder.child name) = .ok content := by
        rw [Tree.read, hf]
        rfl
      rw [found] at h
      rcases he : Record.entriesOf content with limit | defect | entries <;> simp only [he] at h
      · cases h
      · cases h
      · rcases hm : Marker.read (.obj entries) with issues | told
        · simp only [pure_bind, hm] at h
          cases h
        · simp only [pure_bind, hm] at h
          cases h
          exact ⟨number, mode, content, entries, hu, he, hm⟩

theorem release_returns (hf : lock.folder = folder) (g : Ground machine folder place)
    {marker : Marker} (hk : fileName? marker.key = some name) (hn : Tree.IsFileName name)
    (h : Stands machine place name marker) :
    ∃ after, (lock.release marker).exec machine = (.ok (), after) ∧
      ChangedOnly place (· = name) machine after ∧ after.keychain = machine.keychain := by
  have only := release_confined hf hk hn machine g
  have keychain := release_keychain lock marker machine
  suffices hs : ((lock.release marker).exec machine).1 = .ok () from
    ⟨_, Prod.ext hs rfl, only, keychain⟩
  obtain ⟨number, mode, content, hu, printed⟩ := h
  obtain ⟨fits, rfl⟩ := Record.octetsOf_eq_ok.mp printed
  have he := Record.entriesOf_octetsIn _ rfl
    ((Marker.fits_toJson _).mpr ((Marker.fits_toJson _).mp fits))
  have hr := Record.read_exec g hn (.inr ⟨number, mode, _, hu, he⟩)
  obtain ⟨current, quiet, hc⟩ : ∃ current between, (readMarkerAt (folder.child name)).exec machine =
      (.ok current, between) := by
    rw [readMarkerAt, Action.exec_bind_ok hr]
    split
    · split
      · exact ⟨_, _, rfl⟩
      · exact ⟨_, _, rfl⟩
    · exact ⟨_, _, rfl⟩
  rw [release_eq (markerPath_eq hf hk), Action.exec_bind_ok hc, giveBack]
  split
  · rfl
  · rw [Action.exec_bind_ok (Action.exec_ask _ _)]
    split <;> rfl

omit [Runtime] in
/-- Where no folder stands there is nothing to be cleared away. -/
theorem clearWay_nowhere (numbered : machine.tree.Numbered) (down : name ≠ "..")
    (nowhere : ∀ place, ¬ Ground machine folder place) (existing : Option Marker) :
    (clearWay (folder.child name) existing).Yields machine fun _ after => machine.Quiet after := by
  refine .bind (.of_passive (isBlocked_passive _ existing)) fun blocked between quiet => ?_
  split
  · have unlinked : between.answer (.unlink (folder.child name)) =
        between.edit (between.tree.unlink between.directory (folder.child name)) := rfl
    refine .bind (P := fun _ after => machine.Quiet after) ?_ fun _ _ h => .pure h
    cases hu : between.tree.unlink between.directory (folder.child name) with
    | ok tree =>
      rw [Tree.unlink] at hu
      obtain ⟨⟨l, node⟩, hf, -⟩ := exists_of_bind_ok hu
      rw [quiet.tree, quiet.circumstances.directory] at hf
      obtain ⟨place, g, -⟩ := Record.exists_ground numbered down hf
      exact absurd g (nowhere place)
    | error fault =>
      rw [hu] at unlinked
      refine .bind (P := fun _ after => after = between) (.of_exec rfl fun _ _ => ?_) fun _ _ h => ?_
      · exact congrArg Prod.snd unlinked
      · subst h
        split
        · exact .pure quiet
        · exact .pure quiet
        · exact .throw
  · exact .pure quiet

/-- That a folder stands, where it perhaps had to be made, and that after that no file in it was
touched but one. -/
def Reached (folder : Path) (name : String) (before after : Machine) : Prop :=
  ∃ place between, Tree.Grown before.tree between.tree ∧ before.SameCircumstances between ∧
    Ground between folder place ∧ ChangedOnly place (· = name) between after ∧
      Ground after folder place

omit [Runtime] in
/-- Looking around before and after adds nothing to what was reached. -/
theorem Reached.of_quiet {first last after later : Machine} (quiet : first.Quiet last)
    (h : Reached folder name last after) (still : after.Quiet later) :
    Reached folder name first later := by
  obtain ⟨place, between, grown, fixed, g, only, g'⟩ := h
  exact ⟨place, between, quiet.tree ▸ grown, quiet.circumstances.trans fixed, g,
    only.trans (.of_tree still.tree), g'.of_quiet still⟩

theorem create_reaches (hf : lock.folder = folder) (numbered : machine.tree.Numbered)
    (down : name ≠ "..") (marker : Marker) :
    (lock.create (folder.child name) marker).Yields machine fun _ after =>
      Reached folder name machine after := by
  obtain ⟨outcome, between, he, made⟩ := Folder.ensure_made folder machine
  cases outcome with
  | error failure =>
    rw [Lock.create, hf]
    exact .of_exec (Action.exec_bind_error he) fun _ ho => by cases ho
  | ok _ =>
    have fixed := Machine.SameCircumstances.of_exec_eq he
    have stands := made.stands.mp rfl
    rw [← fixed.directory] at stands
    obtain ⟨place, g⟩ := stands.exists_ground (numbered.of_exec_eq he)
    have same : (lock.create (folder.child name) marker).exec machine =
        (lock.create (folder.child name) marker).exec between := by
      rw [Lock.create, hf, Action.exec_bind_ok he, Action.exec_bind_ok g.ensure_exec]
    have only := create_confined hf down marker between g
    exact .of_exec same fun _ _ => ⟨place, between, made.paved.grown, fixed, g, only,
      g.exec rfl only⟩

/-- Taking a lock makes its folder stand and then touches its marker file alone. -/
theorem acquire_reaches (hf : lock.folder = folder) (numbered : machine.tree.Numbered)
    (hk : fileName? key = some name) (hn : Tree.IsFileName name) :
    (lock.acquire key).Yields machine fun _ after => Reached folder name machine after := by
  by_cases stands : ∃ place, Ground machine folder place
  · obtain ⟨place, g⟩ := stands
    refine .of_exec rfl fun _ _ => ⟨place, machine, .refl _, .refl _, g, ?_⟩
    have only := acquire_confined hf hk hn machine g
    exact ⟨only, g.exec rfl only⟩
  · -- No marker can be in the way, so nothing is touched before the folder is made.
    have nowhere := not_exists.mp stands
    rw [acquire_eq (markerPath_eq hf hk)]
    refine .bind (.of_passive (readMarkerAt_passive _)) fun existing _ q₁ => ?_
    refine .bind (.of_passive .now) fun now _ q₂ => ?_
    refine .bind (.of_passive (pass_passive lock key now existing)) fun _ clear q₃ => ?_
    have quiet := (q₁.trans q₂).trans q₃
    have nowhere' (place : Location) (g : Ground clear folder place) : False := by
      refine nowhere place ⟨?_, ?_, numbered⟩
      · rw [← quiet.tree, ← quiet.circumstances.directory]
        exact g.leads
      · rw [← quiet.tree]
        exact g.stands
    refine .bind (clearWay_nowhere (quiet.tree ▸ numbered) hn.down nowhere' existing)
      fun _ last q₄ => ?_
    have quiet := quiet.trans q₄
    refine .bind (create_reaches hf (quiet.tree ▸ numbered) hn.down _) fun _ after reached => ?_
    refine .bind (P := fun _ later => Reached folder name machine later)
      (.of_exec rfl fun _ _ => ?_) fun _ _ h => .pure h
    exact reached.of_quiet quiet (.of_passive (.log _ _ _) after)

theorem create_stands (hf : lock.folder = folder) (numbered : machine.tree.Numbered)
    (hn : Tree.IsFileName name) (marker : Marker) :
    (lock.create (folder.child name) marker).Yields machine fun _ after =>
      ∃ place, Ground after folder place ∧ Stands after place name marker := by
  obtain ⟨outcome, between, he, made⟩ := Folder.ensure_made folder machine
  cases outcome with
  | error failure =>
    rw [Lock.create, hf]
    exact .of_exec (Action.exec_bind_error he) fun _ ho => by cases ho
  | ok _ =>
    have fixed := Machine.SameCircumstances.of_exec_eq he
    have stands := made.stands.mp rfl
    rw [← fixed.directory] at stands
    obtain ⟨place, g⟩ := stands.exists_ground (numbered.of_exec_eq he)
    have same : (lock.create (folder.child name) marker).exec machine =
        (lock.create (folder.child name) marker).exec between := by
      rw [Lock.create, hf, Action.exec_bind_ok he, Action.exec_bind_ok g.ensure_exec]
    intro _ after hc
    rw [same] at hc
    have only := create_confined hf hn.down marker between g
    rw [hc] at only
    exact ⟨place, g.exec hc only, create_yields hf g hn marker _ _ hc⟩

/-- A lock that was taken has left its marker in its folder, whatever stood there before. -/
theorem acquire_stands (hf : lock.folder = folder) (numbered : machine.tree.Numbered)
    (hk : fileName? key = some name) (hn : Tree.IsFileName name) :
    (lock.acquire key).Yields machine fun marker after =>
      ∃ place, Ground after folder place ∧ Stands after place name marker := by
  have ordered {α : Type} (action : Action α) {before : Machine} (h : before.tree.Numbered) :
      action.Yields before fun _ after => after.tree.Numbered :=
    .of_exec rfl fun _ _ => h.of_exec_eq rfl
  rw [acquire_eq (markerPath_eq hf hk)]
  refine .bind (ordered _ numbered) fun existing _ h₁ => ?_
  refine .bind (ordered _ h₁) fun now _ h₂ => ?_
  refine .bind (ordered _ h₂) fun _ _ h₃ => ?_
  refine .bind (ordered _ h₃) fun _ _ h₄ => ?_
  refine .bind (create_stands hf h₄ hn _) fun _ between hb => ?_
  obtain ⟨place, g, stands⟩ := hb
  refine .bind (P := fun _ after => Ground after folder place ∧
    Stands after place name ⟨key, now, lock.holder⟩) (.of_exec rfl fun _ _ => ?_) fun _ _ ha => .pure ⟨place, ha⟩
  exact ⟨g.of_quiet (.of_passive (.log _ _ _) between), stands.of_under rfl⟩

end SessionKeeper.Lock
