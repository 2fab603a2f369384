import SessionKeeper.Disk.Folder
import SessionKeeper.Proofs.Disk.Ground

/-!
# Making the folders above a file

Making sure of a folder adds directories where nothing stood, all of them on the way to
the folder, and changes nothing else. It succeeds exactly when some directories could be
added so that the folder stands.
-/
namespace SessionKeeper.Tree

variable {directory : Location} {path folder : Path} {before between after tree : Tree}

/-- That nothing but directories was added, and only where nothing stood. -/
def Grown (before after : Tree) : Prop :=
  ∀ l, after.node? l = before.node? l ∨
    (before.node? l = none ∧ ∃ mode, after.node? l = some (.directory mode))

theorem isDirectory_of_walk {start place : Location} {part : String} {rest : List String}
    (h : tree.walk start (part :: rest) = .ok place) : tree.isDirectory start = true := by
  rw [walk] at h
  rcases hn : tree.node? start with _ | ⟨_ | mode⟩ <;> rw [hn] at h
  · cases h
  · cases h
  · exact (isDirectory_iff start).mpr ⟨mode, hn⟩

/-- Where a path leads does not depend on the tree in which it leads somewhere. -/
theorem walk_unique {start a b : Location} {parts : List String}
    (ha : before.walk start parts = .ok a) (hb : after.walk start parts = .ok b) : a = b := by
  induction parts generalizing start with
  | nil => exact (Except.ok.inj ha).symm.trans (Except.ok.inj hb)
  | cons part rest ih =>
    obtain ⟨mode, hm⟩ := (isDirectory_iff start).mp (isDirectory_of_walk ha)
    obtain ⟨mode', hm'⟩ := (isDirectory_iff start).mp (isDirectory_of_walk hb)
    rw [walk, hm] at ha
    rw [walk, hm'] at hb
    simp only at ha hb
    split_ifs at ha hb
    · exact ih ha hb
    · exact ih ha hb

/-- That everything stands in a directory. -/
def IsRooted (tree : Tree) : Prop :=
  ∀ l, tree.node? l ≠ none → tree.isDirectory l.dropLast = true

theorem IsRooted.isDirectory_front (rooted : tree.IsRooted) (front back : Location)
    (hb : back ≠ []) (there : tree.node? (front ++ back) ≠ none) :
    tree.isDirectory front = true := by
  induction back using List.reverseRecOn with
  | nil => exact absurd rfl hb
  | append_singleton back last ih =>
    have above := rooted _ there
    rw [← List.append_assoc, List.dropLast_concat] at above
    by_cases hn : back = []
    · rw [hn, List.append_nil] at above
      exact above
    · obtain ⟨mode, hm⟩ := (isDirectory_iff _).mp above
      exact ih hn (by rw [hm]; simp)

theorem eq_append_of_walk {start place : Location} {parts : List String} (down : ".." ∉ parts)
    (leads : after.walk start parts = .ok place) : place = start ++ parts := by
  induction parts generalizing start with
  | nil => rw [List.append_nil, Except.ok.inj leads]
  | cons part rest ih =>
    obtain ⟨mode, hm⟩ := (isDirectory_iff start).mp (isDirectory_of_walk leads)
    rw [List.mem_cons, not_or] at down
    rw [Tree.walk, hm] at leads
    simp only [if_neg (Ne.symm down.1)] at leads
    split_ifs at leads
    rw [ih down.2 leads, List.append_assoc]
    rfl

/-- In a tree in which everything stands in a directory, names lead down to what stands there. -/
theorem IsRooted.walk (rooted : before.IsRooted) {start place : Location} {parts : List String}
    (down : ".." ∉ parts) (leads : after.walk start parts = .ok place)
    (there : before.node? place ≠ none) : before.walk start parts = .ok place := by
  induction parts generalizing start with
  | nil => exact leads
  | cons part rest ih =>
    have hplace := eq_append_of_walk down leads
    have stands := rooted.isDirectory_front start (part :: rest) (by simp) (hplace ▸ there)
    obtain ⟨mode, hm⟩ := (isDirectory_iff start).mp stands
    obtain ⟨mode', hm'⟩ := (isDirectory_iff start).mp (isDirectory_of_walk leads)
    rw [List.mem_cons, not_or] at down
    rw [Tree.walk, hm'] at leads
    rw [Tree.walk, hm]
    simp only [if_neg (Ne.symm down.1)] at leads ⊢
    split_ifs at leads ⊢
    exact ih down.2 leads

namespace Grown

theorem refl (tree : Tree) : Grown tree tree := fun _ => Or.inl rfl

theorem of_some (h : Grown before after) {l : Location} {node : Node}
    (hn : before.node? l = some node) : after.node? l = some node := by
  rcases h l with hs | ⟨hnone, -⟩
  · rw [hs, hn]
  · rw [hn] at hnone
    nomatch hnone

theorem of_file (h : Grown before after) {l : Location} {number mode : Nat} {content : Octets}
    (hn : after.node? l = some (.file number mode content)) :
    before.node? l = some (.file number mode content) := by
  rcases h l with hs | ⟨-, mode', hd⟩
  · rw [← hs, hn]
  · rw [hn] at hd
    nomatch hd

theorem trans (h : Grown before between) (k : Grown between after) : Grown before after := by
  intro l
  rcases h l with hs | ⟨hnone, mode, hd⟩
  · rw [← hs]
    exact k l
  · exact Or.inr ⟨hnone, mode, k.of_some hd⟩

theorem isDirectory (h : Grown before after) {l : Location} (hl : before.isDirectory l = true) :
    after.isDirectory l = true := by
  obtain ⟨mode, hm⟩ := (isDirectory_iff l).mp hl
  exact (isDirectory_iff l).mpr ⟨mode, h.of_some hm⟩

theorem walk_ok (h : Grown before after) {start place : Location} {parts : List String}
    (hw : before.walk start parts = .ok place) : after.walk start parts = .ok place :=
  walk_of_directories (fun _ hl => h.isDirectory hl) start place parts hw

/-- A path that leads nowhere for another reason than that something is missing never leads
anywhere. -/
theorem walk_error (h : Grown before after) {start : Location} {parts : List String}
    {fault : FileFault} (hf : fault ≠ .absent) (hw : before.walk start parts = .error fault) :
    after.walk start parts = .error fault := by
  induction parts generalizing start with
  | nil => nomatch hw
  | cons part rest ih =>
    rw [walk] at hw ⊢
    rcases hn : before.node? start with _ | node
    · rw [hn] at hw
      exact absurd (Except.error.inj hw).symm hf
    · rw [h.of_some hn]
      rw [hn] at hw
      cases node with
      | file number mode content => exact hw
      | directory mode =>
        simp only at hw ⊢
        split_ifs at hw ⊢
        · exact ih hw
        · exact hw
        · exact ih hw

/-- What is missing in the end was missing before. -/
theorem find_absent (h : Grown before after) (hf : after.find directory path = .error .absent) :
    before.find directory path = .error .absent := by
  rw [find] at hf ⊢
  cases hl : before.locate directory path with
  | ok location =>
    rw [locate] at hl
    rw [locate, h.walk_ok hl] at hf
    simp only [bind, Except.bind] at hf ⊢
    rcases hn : before.node? location with _ | node
    · rfl
    · rw [h.of_some hn] at hf
      cases hf
  | error fault =>
    rw [locate] at hl
    by_cases ha : fault = .absent
    · rw [ha]
      rfl
    · rw [locate, h.walk_error ha hl] at hf
      exact absurd (Except.error.inj hf) ha

end Grown

def Stands (tree : Tree) (directory : Location) (folder : Path) : Prop :=
  ∃ place, tree.locate directory folder = .ok place ∧ tree.isDirectory place = true

/-- That directories could be added so that the folder stands. -/
def CanStand (tree : Tree) (directory : Location) (folder : Path) : Prop :=
  ∃ after, Grown tree after ∧ after.Stands directory folder

/-- That the first names of the path to a folder, or all of them, lead to a location. -/
def OnTheWay (tree : Tree) (directory : Location) (folder : Path) (l : Location) : Prop :=
  ∃ count, tree.locate directory ⟨folder.anchor, folder.parts.take count⟩ = .ok l

/-- That nothing but directories on the way to a folder was added. -/
structure Paved (directory : Location) (folder : Path) (before after : Tree) : Prop where
  grown : Grown before after
  way : ∀ l, before.node? l = none → after.node? l ≠ none → after.OnTheWay directory folder l

theorem Stands.parent (h : tree.Stands directory folder) : tree.Stands directory folder.parent := by
  obtain ⟨place, leads, stands⟩ := h
  rcases List.eq_nil_or_concat' folder.parts with hp | ⟨front, last, hp⟩
  · refine ⟨place, ?_, stands⟩
    rw [Tree.locate] at leads ⊢
    rw [Path.parent, hp]
    rw [hp] at leads
    exact leads
  · rw [locate, hp, walk_append] at leads
    obtain ⟨stop, hstop, rest⟩ := exists_of_bind_ok leads
    refine ⟨stop, ?_, isDirectory_of_walk rest⟩
    rw [Path.parent, hp, List.dropLast_concat]
    exact hstop

/-- No file is in the way of a folder that could be made. -/
theorem CanStand.free (can : before.CanStand directory folder) (g : Grown before after)
    {l : Location} (hl : after.locate directory folder = .ok l) :
    after.node? l = none ∨ after.isDirectory l = true := by
  obtain ⟨last, gl, place, leads, stands⟩ := can
  obtain rfl := walk_unique hl leads
  rcases hn : after.node? l with _ | ⟨number, mode, content⟩ | mode
  · exact Or.inl rfl
  · obtain ⟨mode', hd⟩ := (isDirectory_iff l).mp stands
    rw [gl.of_some (g.of_file hn)] at hd
    nomatch hd
  · exact Or.inr ((isDirectory_iff l).mpr ⟨mode, hn⟩)

/-- The path to a folder that could be made leads somewhere once the folder above stands. -/
theorem CanStand.leads (can : before.CanStand directory folder)
    (hp : after.Stands directory folder.parent) : ∃ l, after.locate directory folder = .ok l := by
  obtain ⟨last, -, place, leads, -⟩ := can
  obtain ⟨stop, hstop, hdir⟩ := hp
  obtain ⟨mode, hm⟩ := (isDirectory_iff stop).mp hdir
  rcases List.eq_nil_or_concat' folder.parts with hp | ⟨front, part, hp⟩
  · exact ⟨_, by rw [locate, hp, walk]⟩
  · rw [Path.parent, hp, List.dropLast_concat] at hstop
    rw [locate, hp, walk_append] at leads
    obtain ⟨stop', hstop', rest⟩ := exists_of_bind_ok leads
    obtain rfl := walk_unique hstop hstop'
    obtain ⟨mode', hm'⟩ := (isDirectory_iff stop).mp (isDirectory_of_walk rest)
    have hw : after.walk (if folder.isAbsolute then [] else directory) front = .ok stop := hstop
    rw [walk, hm'] at rest
    rw [locate, hp, walk_append, hw]
    simp only [Except.bind, walk, hm] at rest ⊢
    split_ifs at rest ⊢
    · exact ⟨_, rfl⟩
    · exact ⟨_, rfl⟩

theorem CanStand.parent (can : tree.CanStand directory folder) :
    tree.CanStand directory folder.parent := by
  obtain ⟨after, g, stands⟩ := can
  exact ⟨after, g, stands.parent⟩

theorem OnTheWay.grown {l : Location} (h : before.OnTheWay directory folder l)
    (g : Grown before after) : after.OnTheWay directory folder l := by
  obtain ⟨count, leads⟩ := h
  exact ⟨count, g.walk_ok leads⟩

theorem OnTheWay.of_parent {l : Location} (h : tree.OnTheWay directory folder.parent l) :
    tree.OnTheWay directory folder l := by
  obtain ⟨count, leads⟩ := h
  refine ⟨min count (folder.parts.length - 1), ?_⟩
  rw [Path.parent, List.dropLast_eq_take, List.take_take] at leads
  exact leads

namespace Paved

theorem refl (directory : Location) (folder : Path) (tree : Tree) :
    Paved directory folder tree tree :=
  ⟨.refl tree, fun _ hn hs => absurd hn hs⟩

theorem trans (h : Paved directory folder before between)
    (k : Paved directory folder between after) : Paved directory folder before after where
  grown := h.grown.trans k.grown
  way l hn hs := by
    by_cases hb : between.node? l = none
    · exact k.way l hb hs
    · exact (h.way l hn hb).grown k.grown

theorem of_parent (h : Paved directory folder.parent before after) :
    Paved directory folder before after :=
  ⟨h.grown, fun l hn hs => (h.way l hn hs).of_parent⟩

theorem isDirectory_of_onTheWay (hs : before.Stands directory folder) {l : Location}
    (h : after.OnTheWay directory folder l) :
    before.isDirectory l = true := by
  obtain ⟨place, leads, stands⟩ := hs
  obtain ⟨count, hl⟩ := h
  have hparts : folder.parts = folder.parts.take count ++ folder.parts.drop count :=
    (List.take_append_drop count folder.parts).symm
  rw [locate, hparts, walk_append] at leads
  obtain ⟨stop, hstop, rest⟩ := exists_of_bind_ok leads
  have same : stop = l := walk_unique hstop hl
  subst same
  cases hd : folder.parts.drop count with
  | nil =>
    rw [hd] at rest
    rw [Except.ok.inj rest]
    exact stands
  | cons part more =>
    rw [hd] at rest
    exact isDirectory_of_walk rest

/-- Nothing is added on the way to a folder that stands. -/
theorem node?_of_stands (h : Paved directory folder before after)
    (hs : before.Stands directory folder) (l : Location) : after.node? l = before.node? l := by
  rcases h.grown l with same | ⟨hnone, mode, hd⟩
  · exact same
  · have way := h.way l hnone (by rw [hd]; simp)
    obtain ⟨mode', hm⟩ := (isDirectory_iff l).mp (isDirectory_of_onTheWay hs way)
    rw [hnone] at hm
    nomatch hm

end Paved

/-- A directory that was made stands, and it is all that was added. -/
theorem makeDirectory_ok {mode : Nat} (h : before.makeDirectory directory path mode = .ok after) :
    Paved directory path before after ∧ after.Stands directory path := by
  obtain ⟨l, leads, h⟩ := exists_of_bind_ok h
  cases hn : before.node? l with
  | some node =>
    rw [hn] at h
    nomatch h
  | none =>
    rw [hn] at h
    obtain rfl := Except.ok.inj h
    have hroot : l ≠ [] := by
      rintro rfl
      nomatch hn
    have here : (before.put l (.directory (masked mode))).node? l =
        some (.directory (masked mode)) := by
      rw [node?_put _ _ _ _ hroot, if_pos rfl]
    have grown : Grown before (before.put l (.directory (masked mode))) := by
      intro k
      by_cases hk : l = k
      · subst hk
        exact Or.inr ⟨hn, _, here⟩
      · left
        by_cases hr : k = []
        · rw [hr]
          rfl
        · rw [node?_put _ _ _ _ hr, if_neg hk]
    refine ⟨⟨grown, fun k hnone hsome => ?_⟩, l, grown.walk_ok leads,
      (isDirectory_iff l).mpr ⟨_, here⟩⟩
    have hk : k = l := by
      by_contra hne
      rcases grown k with same | ⟨-, mode', hd⟩
      · exact hsome (same.trans hnone)
      · by_cases hr : k = []
        · subst hr
          nomatch hnone
        · rw [node?_put _ _ _ _ hr, if_neg (Ne.symm hne), hnone] at hd
          nomatch hd
    subst hk
    exact ⟨path.parts.length, by rw [List.take_length]; exact grown.walk_ok leads⟩

end SessionKeeper.Tree

namespace SessionKeeper

theorem Ground.standing {machine : Machine} {folder : Path} {place : Location}
    (g : Ground machine folder place) : machine.tree.Stands machine.directory folder :=
  ⟨place, g.leads, g.stands⟩

theorem Tree.Stands.exists_ground {machine : Machine} {folder : Path}
    (h : machine.tree.Stands machine.directory folder) (numbered : machine.tree.Numbered) :
    ∃ place, Ground machine folder place := by
  obtain ⟨place, leads, stands⟩ := h
  exact ⟨place, leads, stands, numbered⟩

end SessionKeeper

namespace SessionKeeper.Folder

variable {machine : Machine} {folder path : Path} {mode : Nat}

theorem kind_eq_directory_iff (tree : Tree) (directory : Location) (path : Path) :
    tree.kind directory path = .ok .directory ↔ tree.Stands directory path := by
  rw [Tree.kind, Tree.find, Tree.Stands]
  rcases hl : tree.locate directory path with fault | l
  · simp [bind, Except.bind]
  · simp only [bind, Except.bind]
    rcases hn : tree.node? l with _ | ⟨_ | mode⟩ <;>
      simp [Tree.isDirectory, hn, Node.kind, pure, Except.pure, throw, throwThe,
        MonadExceptOf.throw]

/-- Going on where a folder is there leaves everything as it is. -/
theorem accept_exec (path : Path) (fault : FileFault) (machine : Machine) :
    ∃ outcome, (accept path fault).exec machine = (outcome, machine) ∧
      (outcome = .ok () ↔ machine.tree.Stands machine.directory path) ∧
      ∀ failure, outcome = .error failure → ∃ fault, failure = .file fault := by
  rw [← kind_eq_directory_iff]
  have probe : machine.answer (.probe path) =
      (machine.tree.kind machine.directory path, machine) := rfl
  rw [accept, isThere, bind_assoc, Action.exec_ask_bind probe]
  rcases machine.tree.kind machine.directory path with fault | kind
  · cases fault <;> exact ⟨_, rfl, by simp, by simp⟩
  · cases kind <;> exact ⟨_, rfl, by simp, by simp⟩

/-- The outcome of making a folder: nothing but directories on the way to it was added, and
it stands unless a file operation failed. -/
structure Made (folder : Path) (before : Machine) (outcome : Except Failure Unit)
    (after : Machine) : Prop where
  paved : Tree.Paved before.directory folder before.tree after.tree
  keychain : after.keychain = before.keychain
  stands : outcome = .ok () ↔ after.tree.Stands before.directory folder
  fault : ∀ failure, outcome = .error failure → ∃ fault, failure = .file fault

theorem made_accept (path : Path) (fault : FileFault) (machine : Machine) :
    ∃ outcome after, (accept path fault).exec machine = (outcome, after) ∧
      Made path machine outcome after := by
  obtain ⟨outcome, he, hs, hf⟩ := accept_exec path fault machine
  exact ⟨outcome, machine, he, .refl _ _ _, rfl, hs, hf⟩

/-- Asking for a directory makes it, or leaves everything as it is. -/
theorem answer_makeDirectory_cases (machine : Machine) (path : Path) (mode : Nat) :
    (∃ after, machine.answer (.makeDirectory path mode) = (.ok (), after) ∧
      Made path machine (.ok ()) after) ∨
    ∃ fault, machine.tree.makeDirectory machine.directory path mode = .error fault ∧
      machine.answer (.makeDirectory path mode) = (.error fault, machine) := by
  have ha : machine.answer (.makeDirectory path mode) =
      machine.edit (machine.tree.makeDirectory machine.directory path mode) := rfl
  rw [ha]
  cases hm : machine.tree.makeDirectory machine.directory path mode with
  | error fault => exact Or.inr ⟨fault, rfl, rfl⟩
  | ok tree =>
    obtain ⟨paved, stands⟩ := Tree.makeDirectory_ok hm
    exact Or.inl ⟨_, rfl, paved, rfl, iff_of_true rfl stands, by simp⟩

theorem makeDirectory_error {tree : Tree} {directory : Location} {fault : FileFault}
    (hs : tree.Stands directory path)
    (hm : tree.makeDirectory directory path mode = .error fault) : fault = .present := by
  obtain ⟨place, leads, stands⟩ := hs
  obtain ⟨old, hn⟩ := (Tree.isDirectory_iff place).mp stands
  rw [Tree.makeDirectory, leads] at hm
  simp only [bind, Except.bind, hn] at hm
  exact (Except.error.inj hm).symm

/-- A making that goes on from where the folder above was made. -/
theorem Made.after_parent {between after : Machine} {outcome : Except Failure Unit}
    (paved : Tree.Paved machine.directory path.parent machine.tree between.tree)
    (keychain : between.keychain = machine.keychain) (fixed : machine.SameCircumstances between)
    (h : Made path between outcome after) : Made path machine outcome after where
  paved := paved.of_parent.trans (fixed.directory ▸ h.paved)
  keychain := h.keychain.trans keychain
  stands := fixed.directory ▸ h.stands
  fault := h.fault

/-- A folder that is asked for in vain because something is missing does not stand. -/
theorem made_missing (hm : machine.tree.makeDirectory machine.directory path mode = .error .absent) :
    Made path machine (.error (.file .absent)) machine := by
  refine ⟨.refl _ _ _, rfl, iff_of_false (by simp) fun hs => ?_, by simp⟩
  nomatch makeDirectory_error hs hm

theorem makeWithin_exec (height : Nat) (path : Path) (mode : Nat) (machine : Machine) :
    ∃ outcome after, (makeWithin height path mode).exec machine = (outcome, after) ∧
      Made path machine outcome after := by
  -- The folder above is made only when something is missing, and then this one is asked for once
  -- more. Whatever else is in the way is looked at and settled by `made_accept`.
  induction height generalizing path mode machine with
  | zero =>
    rw [makeWithin.eq_def]
    rcases answer_makeDirectory_cases machine path mode with ⟨after, ha, made⟩ | ⟨fault, hm, ha⟩
    · exact ⟨_, after, Action.exec_ask_bind ha, made⟩
    · rw [Action.exec_ask_bind ha]
      cases fault
      case absent => exact ⟨_, machine, rfl, made_missing hm⟩
      all_goals exact made_accept path _ machine
  | succ height ih =>
    rw [makeWithin.eq_def]
    rcases answer_makeDirectory_cases machine path mode with ⟨after, ha, made⟩ | ⟨fault, hm, ha⟩
    · exact ⟨_, after, Action.exec_ask_bind ha, made⟩
    · rw [Action.exec_ask_bind ha]
      cases fault
      case absent =>
        obtain ⟨outcome, between, he, made⟩ := ih path.parent usualMode machine
        have fixed := Machine.SameCircumstances.of_exec_eq he
        dsimp only
        cases outcome with
        | error failure =>
          refine ⟨_, between, Action.exec_bind_error he, made.paved.of_parent, made.keychain, ?_,
            made.fault⟩
          refine iff_of_false (by simp) fun hs => ?_
          cases made.stands.mpr hs.parent
        | ok _ =>
          rw [Action.exec_bind_ok he]
          rcases answer_makeDirectory_cases between path mode with
            ⟨after, ha', made'⟩ | ⟨fault, hm', ha'⟩
          · exact ⟨_, after, Action.exec_ask_bind ha',
              made'.after_parent made.paved made.keychain fixed⟩
          · rw [Action.exec_ask_bind ha']
            cases fault
            case absent =>
              exact ⟨_, between, rfl,
                (made_missing hm').after_parent made.paved made.keychain fixed⟩
            all_goals
              obtain ⟨outcome, after, he', made'⟩ := made_accept path _ between
              exact ⟨outcome, after, he', made'.after_parent made.paved made.keychain fixed⟩
      all_goals exact made_accept path _ machine

theorem ensure_made (folder : Path) (machine : Machine) :
    ∃ outcome after, (ensure folder).exec machine = (outcome, after) ∧
      Made folder machine outcome after :=
  makeWithin_exec _ folder privateMode machine

theorem makeDirectory_of_leads {l : Location}
    (leads : machine.tree.locate machine.directory path = .ok l)
    (free : machine.tree.node? l = none ∨ machine.tree.isDirectory l = true) :
    (∃ after, machine.answer (.makeDirectory path mode) = (.ok (), after)) ∨
      (machine.answer (.makeDirectory path mode) = (.error .present, machine) ∧
        machine.tree.Stands machine.directory path) := by
  have ha : machine.answer (.makeDirectory path mode) =
      machine.edit (machine.tree.makeDirectory machine.directory path mode) := rfl
  rw [ha, Tree.makeDirectory, leads]
  rcases free with free | taken
  · simp only [bind, Except.bind, free]
    exact Or.inl ⟨_, rfl⟩
  · obtain ⟨old, hn⟩ := (Tree.isDirectory_iff l).mp taken
    simp only [bind, Except.bind, hn]
    exact Or.inr ⟨rfl, l, leads, taken⟩

theorem accept_of_stands (fault : FileFault) (hs : machine.tree.Stands machine.directory path) :
    (accept path fault).exec machine = (.ok (), machine) := by
  obtain ⟨outcome, he, hiff, -⟩ := accept_exec path fault machine
  rw [he, hiff.mpr hs]

/-- Where directories can be added so that a folder stands, its path leads nowhere only because
something is missing. -/
theorem absent_of_canStand {fault : FileFault}
    (can : machine.tree.CanStand machine.directory path)
    (hl : machine.tree.locate machine.directory path = .error fault) : fault = .absent := by
  by_contra hne
  obtain ⟨after, grown, place, leads, -⟩ := can
  rw [Tree.locate, grown.walk_error hne hl] at leads
  cases leads

/-- A folder is made when directories can be added so that it stands. -/
theorem makeWithin_of_canStand (height : Nat) (path : Path) (mode : Nat) (machine : Machine)
    (hh : path.parts.length ≤ height) (can : machine.tree.CanStand machine.directory path) :
    ∃ after, (makeWithin height path mode).exec machine = (.ok (), after) := by
  cases hl : machine.tree.locate machine.directory path with
  | ok l =>
    rw [makeWithin.eq_def]
    rcases makeDirectory_of_leads hl (can.free (.refl _) hl) with ⟨after, ha⟩ | ⟨ha, hs⟩
    · exact ⟨after, Action.exec_ask_bind ha⟩
    · exact ⟨machine, (Action.exec_ask_bind ha).trans (accept_of_stands .present hs)⟩
  | error fault =>
    -- The path leads nowhere yet, so something above the folder is missing and has to be made.
    obtain rfl := absent_of_canStand can hl
    have ha : machine.answer (.makeDirectory path mode) = (.error .absent, machine) := by
      show machine.edit (machine.tree.makeDirectory machine.directory path mode) = _
      rw [Tree.makeDirectory, hl]
      rfl
    cases height with
    | zero =>
      rw [Tree.locate, List.length_eq_zero_iff.mp (Nat.le_zero.mp hh)] at hl
      cases hl
    | succ height =>
      have hparent : path.parent.parts.length ≤ height := by
        rw [Path.parent, List.length_dropLast]
        omega
      obtain ⟨between, he⟩ :=
        makeWithin_of_canStand height path.parent usualMode machine hparent can.parent
      obtain ⟨outcome, same, he', made⟩ := makeWithin_exec height path.parent usualMode machine
      rw [he] at he'
      obtain ⟨rfl, rfl⟩ := Prod.mk.inj he'
      have fixed := Machine.SameCircumstances.of_exec_eq he
      obtain ⟨l, leads⟩ := can.leads (made.stands.mp rfl)
      rw [makeWithin.eq_def, Action.exec_ask_bind ha]
      dsimp only
      rw [Action.exec_bind_ok he]
      rw [← fixed.directory] at leads can
      rcases makeDirectory_of_leads leads (can.free made.paved.grown leads) with
        ⟨after, hb⟩ | ⟨hb, hs⟩
      · exact ⟨after, Action.exec_ask_bind hb⟩
      · exact ⟨between, (Action.exec_ask_bind hb).trans (accept_of_stands .present hs)⟩

/-- Making sure of a folder succeeds whenever it can. -/
theorem ensure_of_canStand (can : machine.tree.CanStand machine.directory folder) :
    ∃ after, (ensure folder).exec machine = (.ok (), after) :=
  makeWithin_of_canStand _ folder privateMode machine (Nat.le_refl _) can

/-- Once it has been made sure of, the folder stands, and nothing was added but the way to it. -/
theorem ensure_ground (can : machine.tree.CanStand machine.directory folder)
    (numbered : machine.tree.Numbered) :
    ∃ after place, (ensure folder).exec machine = (.ok (), after) ∧
      machine.SameCircumstances after ∧ after.keychain = machine.keychain ∧
      Tree.Paved machine.directory folder machine.tree after.tree ∧ Ground after folder place := by
  obtain ⟨after, ensured⟩ := ensure_of_canStand can
  obtain ⟨_, _, same, made⟩ := ensure_made folder machine
  rw [ensured] at same
  obtain ⟨rfl, rfl⟩ := Prod.mk.inj same
  have fixed := Machine.SameCircumstances.of_exec_eq ensured
  have stands := made.stands.mp rfl
  rw [← fixed.directory] at stands
  obtain ⟨place, g⟩ := stands.exists_ground (numbered.of_exec_eq ensured)
  exact ⟨after, place, ensured, fixed, made.keychain, made.paved, g⟩

end SessionKeeper.Folder
