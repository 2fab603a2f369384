import SessionKeeper.Proofs.Disk.Paved
import SessionKeeper.Proofs.Script.Passage

/-!
# Paths that only lead down

A path without double dots whose names are short enough leads down from where it starts, name by
name, until it arrives or meets a file or nothing. In a tree in which everything stands in a
directory it is therefore known what making a folder does: it adds the directories that are missing,
with the asked-for permissions at the folder itself and the usual ones above it, or a file is in the
way and nothing happens. On the way nothing but directories appears, and what a path finds below
the folder stays the same.
-/
namespace SessionKeeper

namespace Path

/-- That a path only leads down: each of its names is one that a file can have. -/
def Descends (path : Path) : Prop := ∀ part ∈ path.parts, Tree.IsFileName part

def start (path : Path) (directory : Location) : Location := if path.isAbsolute then [] else directory

/-- Where a path that only leads down ends. -/
def goal (path : Path) (directory : Location) : Location := path.start directory ++ path.parts

theorem Descends.parent {path : Path} (names : path.Descends) : path.parent.Descends :=
  fun part hp => names part (List.dropLast_subset _ hp)

theorem goal_child (folder : Path) (name : String) (directory : Location) :
    (folder.child name).goal directory = folder.goal directory ++ [name] :=
  (List.append_assoc _ _ _).symm

theorem eq_child_of_ne_nil {path : Path} (h : path.parts ≠ []) :
    path = path.parent.child path.name := by
  obtain ⟨anchor, parts⟩ := path
  have last : parts.getLast?.getD "" = parts.getLast h := by
    rw [List.getLast?_eq_getLast_of_ne_nil h, Option.getD_some]
  rw [parent, child, name, last, List.dropLast_append_getLast]

theorem goal_eq_child {path : Path} (named : path.parts ≠ []) (directory : Location) :
    path.goal directory = path.parent.goal directory ++ [path.name] := by
  conv_lhs => rw [eq_child_of_ne_nil named]
  exact goal_child _ _ _

end Path

namespace Tree

variable {tree before between after : Tree} {directory start goal place : Location}
  {path folder : Path} {name : String} {mode : Nat}

/-- How names lead down from a location: all the way, up to a file, or up to nothing. -/
inductive Descent (tree : Tree) (start : Location) (parts : List String) :
    Except FileFault Location → Prop where
  | arrives (above : parts ≠ [] → tree.isDirectory (start ++ parts.dropLast) = true) :
    Descent tree start parts (.ok (start ++ parts))
  | blocked {front back : List String} {number mode : Nat} {content : Octets}
    (split : parts = front ++ back) (more : back ≠ [])
    (file : tree.node? (start ++ front) = some (.file number mode content)) :
    Descent tree start parts (.error .notDirectory)
  | missing {front back : List String} (split : parts = front ++ back) (more : back ≠ [])
    (gone : tree.node? (start ++ front) = none) : Descent tree start parts (.error .absent)

theorem walk_descent (tree : Tree) (start : Location) {parts : List String}
    (names : ∀ part ∈ parts, IsFileName part) : Descent tree start parts (tree.walk start parts) := by
  induction parts generalizing start with
  | nil =>
    have arrived : Descent tree start [] (.ok (start ++ [])) := .arrives (absurd rfl)
    rwa [List.append_nil] at arrived
  | cons part rest ih =>
    rw [walk]
    have below (more : List String) : start ++ part :: more = start ++ [part] ++ more := by simp
    rcases there : tree.node? start with _ | ⟨number, mode, content⟩ | mode
    · exact .missing (List.nil_append _).symm (by simp) (by rw [List.append_nil, there])
    · exact .blocked (List.nil_append _).symm (by simp) (by rw [List.append_nil, there])
    · have hp := names part List.mem_cons_self
      simp only [if_neg hp.down, hp.short, Bool.false_eq_true, if_false]
      generalize he : tree.walk (start ++ [part]) rest = result
      cases he ▸ ih (start ++ [part]) fun other ho => names other (List.mem_cons_of_mem _ ho) with
      | arrives above =>
        rw [← below]
        refine .arrives fun _ => ?_
        cases rest with
        | nil => exact (isDirectory_iff _).mpr ⟨mode, by simpa using there⟩
        | cons next more =>
          rw [List.dropLast_cons_of_ne_nil (by simp), below]
          exact above (by simp)
      | @blocked front back _ _ _ split more file =>
        have split : part :: rest = (part :: front) ++ back := by rw [split, List.cons_append]
        exact .blocked split more (by rw [below]; exact file)
      | @missing front back split more gone =>
        have split : part :: rest = (part :: front) ++ back := by rw [split, List.cons_append]
        exact .missing split more (by rw [below]; exact gone)

theorem locate_descent (tree : Tree) (directory : Location) (names : path.Descends) :
    Descent tree (path.start directory) path.parts (tree.locate directory path) :=
  walk_descent tree (path.start directory) names

/-- Names lead down to whatever stands in a tree in which everything stands in a directory. -/
theorem IsRooted.walk_down (rooted : tree.IsRooted) {parts : List String}
    (names : ∀ part ∈ parts, IsFileName part) (there : tree.node? (start ++ parts) ≠ none) :
    tree.walk start parts = .ok (start ++ parts) := by
  have reach (front back : List String) (more : back ≠ []) (split : parts = front ++ back) :
      tree.isDirectory (start ++ front) = true :=
    rooted.isDirectory_front (start ++ front) back more (by rwa [List.append_assoc, ← split])
  generalize he : tree.walk start parts = result
  cases he ▸ walk_descent tree start names with
  | arrives => rfl
  | blocked split more file =>
    obtain ⟨mode, hm⟩ := (isDirectory_iff _).mp (reach _ _ more split)
    rw [file] at hm
    cases hm
  | missing split more gone =>
    obtain ⟨mode, hm⟩ := (isDirectory_iff _).mp (reach _ _ more split)
    rw [gone] at hm
    cases hm

theorem IsRooted.isDirectory_prefix (rooted : tree.IsRooted) (stands : tree.isDirectory goal = true)
    {l : Location} (above : l <+: goal) : tree.isDirectory l = true := by
  obtain ⟨back, rfl⟩ := above
  by_cases more : back = []
  · rwa [more, List.append_nil] at stands
  · obtain ⟨mode, hm⟩ := (isDirectory_iff _).mp stands
    exact rooted.isDirectory_front l back more (by rw [hm]; simp)

/-- Nothing stands below a location where nothing stands. -/
theorem IsRooted.node?_below (rooted : tree.IsRooted) {l : Location} (gone : tree.node? l = none)
    (back : List String) : tree.node? (l ++ back) = none := by
  by_contra there
  by_cases more : back = []
  · rw [more, List.append_nil] at there
    exact there gone
  · obtain ⟨mode, hm⟩ := (isDirectory_iff _).mp (rooted.isDirectory_front l back more there)
    rw [gone] at hm
    cases hm

/-- What stands at a location once the directories are made that were missing at a goal, with the
given permissions, and above it, with the usual ones. -/
def lay (tree : Tree) (goal : Location) (mode : Nat) (l : Location) : Option Node :=
  (tree.node? l).or (if l = goal then some (.directory (masked mode))
    else if l <+: goal then some (.directory (masked Folder.usualMode)) else none)

example : masked Folder.privateMode = 0o700 ∧ masked Folder.usualMode = 0o755 := by decide

/-- That a tree has been given the directories that were missing at a goal and above it. -/
def Laid (before after : Tree) (goal : Location) (mode : Nat) : Prop :=
  ∀ l, after.node? l = before.lay goal mode l

theorem Laid.of_stands (rooted : tree.IsRooted) (stands : tree.isDirectory goal = true) :
    Laid tree tree goal mode := by
  intro l
  cases there : tree.node? l with
  | some node => rw [lay, there, Option.some_or]
  | none =>
    have off : ¬ l <+: goal := by
      intro above
      obtain ⟨old, hm⟩ := (isDirectory_iff l).mp (rooted.isDirectory_prefix stands above)
      rw [there] at hm
      cases hm
    have apart : l ≠ goal := by
      rintro rfl
      exact off (List.prefix_refl l)
    rw [lay, there, Option.none_or, if_neg apart, if_neg off]

/-- After the folders above it a directory is made where nothing stood. -/
theorem Laid.child (laid : Laid before between place Folder.usualMode)
    (gone : before.node? (place ++ [name]) = none) :
    Laid before (between.put (place ++ [name]) (.directory (masked mode))) (place ++ [name]) mode := by
  intro l
  by_cases root : l = []
  · rw [root]
    rfl
  · rw [node?_put _ _ _ _ root]
    by_cases here : place ++ [name] = l
    · rw [if_pos here, ← here, lay, gone, Option.none_or, if_pos rfl]
    · rw [if_neg here, laid l, lay, lay, if_neg (Ne.symm here)]
      congr 1
      by_cases at' : l = place
      · rw [if_pos at', if_pos (at' ▸ List.prefix_append place [name])]
      · rw [if_neg at']
        have same : l <+: place ++ [name] ↔ l <+: place := by
          rw [List.prefix_concat_iff]
          exact or_iff_right (Ne.symm here)
        simp only [same]

/-- That a file stands at a location or on the way to it. -/
def Blocked (tree : Tree) (goal : Location) : Prop :=
  ∃ l number mode content, l <+: goal ∧ tree.node? l = some (.file number mode content)

theorem Blocked.child (h : tree.Blocked place) (name : String) : tree.Blocked (place ++ [name]) := by
  obtain ⟨l, number, mode, content, above, file⟩ := h
  exact ⟨l, number, mode, content, above.trans (List.prefix_append _ _), file⟩

end Tree

namespace Folder

variable {machine : Machine} {path folder : Path} {mode : Nat}

/-- Where a folder can neither be made nor stands, asking for it changes nothing. -/
theorem accept_refused (fault : FileFault)
    (astray : ¬ machine.tree.Stands machine.directory path) :
    ∃ fault', (accept path fault).exec machine = (.error (.file fault'), machine) := by
  obtain ⟨outcome, he, stands, failed⟩ := accept_exec path fault machine
  rcases outcome with failure | done
  · obtain ⟨fault', rfl⟩ := failed failure rfl
    exact ⟨fault', he⟩
  · exact absurd (stands.mp rfl) astray

theorem accept_stands (fault : FileFault) (stands : machine.tree.Stands machine.directory path) :
    (accept path fault).exec machine = (.ok (), machine) := by
  obtain ⟨outcome, he, iff, -⟩ := accept_exec path fault machine
  rw [he, iff.mpr stands]

/-- What making a folder does on a path that only leads down. -/
inductive Lays (path : Path) (mode : Nat) (before : Machine) :
    Except Failure Unit → Machine → Prop where
  | laid {after : Machine}
    (laid : Tree.Laid before.tree after.tree (path.goal before.directory) mode) :
    Lays path mode before (.ok ()) after
  | blocked {fault : FileFault} (blocked : before.tree.Blocked (path.goal before.directory)) :
    Lays path mode before (.error (.file fault)) before

theorem answer_makeDirectory_free {l : Location}
    (leads : machine.tree.locate machine.directory path = .ok l) (free : machine.tree.node? l = none) :
    machine.answer (.makeDirectory path mode) =
      (.ok (), { machine with tree := machine.tree.put l (.directory (Tree.masked mode)) }) := by
  show machine.edit (machine.tree.makeDirectory machine.directory path mode) = _
  rw [Tree.makeDirectory, leads]
  simp only [bind, Except.bind, free]
  rfl

theorem answer_makeDirectory_taken {l : Location} {node : Node}
    (leads : machine.tree.locate machine.directory path = .ok l)
    (there : machine.tree.node? l = some node) :
    machine.answer (.makeDirectory path mode) = (.error .present, machine) := by
  show machine.edit (machine.tree.makeDirectory machine.directory path mode) = _
  rw [Tree.makeDirectory, leads]
  simp only [bind, Except.bind, there]
  rfl

theorem answer_makeDirectory_lost {fault : FileFault}
    (lost : machine.tree.locate machine.directory path = .error fault) :
    machine.answer (.makeDirectory path mode) = (.error fault, machine) := by
  show machine.edit (machine.tree.makeDirectory machine.directory path mode) = _
  rw [Tree.makeDirectory, lost]
  rfl

/-- How asking for a directory ends on a path that only leads down. A fault other than a missing
folder is followed by a look whether the directory is there. -/
inductive Attempt (path : Path) (mode : Nat) (before : Machine) :
    Except FileFault Unit → Machine → Prop where
  | made {after : Machine}
    (laid : Tree.Laid before.tree after.tree (path.goal before.directory) mode) :
    Attempt path mode before (.ok ()) after
  | refused {fault : FileFault} {outcome : Except Failure Unit} (other : fault ≠ .absent)
    (accepts : (accept path fault).exec before = (outcome, before))
    (lays : Lays path mode before outcome before) : Attempt path mode before (.error fault) before
  | missing (named : path.parts ≠ []) (gone : before.tree.node? (path.goal before.directory) = none) :
    Attempt path mode before (.error .absent) before

/-- Where a file is in the way, a folder neither stands nor is made. -/
theorem attempt_blocked {fault : FileFault} (other : fault ≠ .absent)
    (astray : ¬ machine.tree.Stands machine.directory path)
    (blocked : machine.tree.Blocked (path.goal machine.directory)) :
    Attempt path mode machine (.error fault) machine := by
  obtain ⟨fault', accepts⟩ := accept_refused fault astray
  exact .refused other accepts (.blocked blocked)

theorem answer_makeDirectory_attempt (mode : Nat) (names : path.Descends)
    (rooted : machine.tree.IsRooted) (start : machine.tree.isDirectory (path.start machine.directory) = true) :
    ∃ answer after, machine.answer (.makeDirectory path mode) = (answer, after) ∧
      Attempt path mode machine answer after := by
  generalize he : machine.tree.locate machine.directory path = result
  cases he ▸ machine.tree.locate_descent machine.directory names with
  | arrives above =>
    have leads : machine.tree.locate machine.directory path = .ok (path.goal machine.directory) := he
    rcases there : machine.tree.node? (path.goal machine.directory) with
      _ | ⟨number, old, content⟩ | old
    · refine ⟨_, _, answer_makeDirectory_free leads there, .made ?_⟩
      have named : path.parts ≠ [] := by
        intro empty
        obtain ⟨old, hm⟩ := (Tree.isDirectory_iff _).mp start
        rw [Path.goal, empty, List.append_nil, hm] at there
        cases there
      rw [Path.goal_eq_child named] at there ⊢
      exact (Tree.Laid.of_stands rooted (above named)).child there
    · refine ⟨_, _, answer_makeDirectory_taken leads there, attempt_blocked (by simp) ?_ ?_⟩
      · rintro ⟨place, arrived, stands⟩
        obtain ⟨old, hm⟩ := (Tree.isDirectory_iff _).mp stands
        obtain rfl := Except.ok.inj (leads.symm.trans arrived)
        rw [there] at hm
        cases hm
      · exact ⟨_, number, old, content, List.prefix_refl _, there⟩
    · have stands : machine.tree.isDirectory (path.goal machine.directory) = true :=
        (Tree.isDirectory_iff _).mpr ⟨old, there⟩
      exact ⟨_, _, answer_makeDirectory_taken leads there, .refused (by simp)
        (accept_stands _ ⟨_, leads, stands⟩) (.laid (.of_stands rooted stands))⟩
  | blocked split more file =>
    refine ⟨_, _, answer_makeDirectory_lost he, attempt_blocked (by simp) ?_ ?_⟩
    · rintro ⟨place, arrived, -⟩
      rw [he] at arrived
      cases arrived
    · refine ⟨_, _, _, _, ?_, file⟩
      rw [Path.goal, split, ← List.append_assoc]
      exact List.prefix_append _ _
  | missing split more gone =>
    refine ⟨_, _, answer_makeDirectory_lost he, .missing ?_ ?_⟩
    · rw [split]
      simp [more]
    · rw [Path.goal, split, ← List.append_assoc]
      exact rooted.node?_below gone _

/-- Below a folder that was just made a directory is made where nothing stood. -/
theorem makeDirectory_after {between : Machine} (mode : Nat) (names : path.Descends)
    (named : path.parts ≠ []) (gone : machine.tree.node? (path.goal machine.directory) = none)
    (directory : between.directory = machine.directory)
    (laid : Tree.Laid machine.tree between.tree (path.parent.goal machine.directory) usualMode)
    (stands : between.tree.Stands between.directory path.parent) :
    ∃ after, between.answer (.makeDirectory path mode) = (.ok (), after) ∧
      Tree.Laid machine.tree after.tree (path.goal machine.directory) mode := by
  obtain ⟨place, leads, standing⟩ := stands
  have last : Tree.IsFileName path.name := by
    refine names path.name ?_
    rw [Path.name, List.getLast?_eq_getLast_of_ne_nil named, Option.getD_some]
    exact List.getLast_mem named
  have arrived : place = path.parent.goal machine.directory := by
    have descent := between.tree.locate_descent between.directory names.parent
    rw [leads] at descent
    cases descent with
    | arrives => rw [directory, Path.goal]
  have child := Tree.locate_child leads standing last
  rw [← Path.eq_child_of_ne_nil named, arrived] at child
  rw [Path.goal_eq_child named] at gone ⊢
  have free : between.tree.node? (path.parent.goal machine.directory ++ [path.name]) = none := by
    rw [laid, Tree.lay, gone, Option.none_or, if_neg (by simp), if_neg fun above => ?_]
    have longer := above.length_le
    simp at longer
  exact ⟨_, answer_makeDirectory_free child free, laid.child gone⟩

/-- Making a folder adds the directories that are missing, or a file is in the way and nothing
happens. -/
theorem makeWithin_lays (height : Nat) (path : Path) (mode : Nat) (names : path.Descends)
    (rooted : machine.tree.IsRooted)
    (start : machine.tree.isDirectory (path.start machine.directory) = true)
    (high : path.parts.length ≤ height) :
    ∃ outcome after, (makeWithin height path mode).exec machine = (outcome, after) ∧
      Lays path mode machine outcome after := by
  obtain ⟨answer, after, asked, attempt⟩ :=
    answer_makeDirectory_attempt mode names rooted start
  rw [makeWithin.eq_def, Action.exec_ask_bind asked]
  cases attempt with
  | made laid => exact ⟨_, _, rfl, .laid laid⟩
  | @refused fault _ other accepts lays =>
    cases fault
    case absent => exact absurd rfl other
    all_goals exact ⟨_, _, accepts, lays⟩
  | missing named gone =>
    cases height with
    | zero => exact absurd (List.length_eq_zero_iff.mp (Nat.le_zero.mp high)) named
    | succ height =>
      have lower : path.parent.parts.length ≤ height := by
        rw [Path.parent, List.length_dropLast]
        omega
      obtain ⟨outcome, between, he, lays⟩ :=
        makeWithin_lays height path.parent usualMode names.parent rooted start lower
      cases lays with
      | blocked blocked =>
        refine ⟨_, _, Action.exec_bind_error he, .blocked ?_⟩
        rw [Path.goal_eq_child named]
        exact blocked.child path.name
      | laid laid =>
        obtain ⟨_, _, same, made⟩ := makeWithin_exec height path.parent usualMode machine
        rw [he] at same
        obtain ⟨rfl, rfl⟩ := Prod.mk.inj same
        have directory := (Machine.SameCircumstances.of_exec_eq he).directory
        have stands := made.stands.mp rfl
        rw [← directory] at stands
        obtain ⟨after, done, laid⟩ :=
          makeDirectory_after mode names named gone directory laid stands
        exact ⟨_, after, (Action.exec_bind_ok he).trans (Action.exec_ask_bind done), .laid laid⟩

/-- Making sure of a folder lays the way to it, and the folder itself is for its owner only. -/
theorem ensure_lays (names : folder.Descends) (rooted : machine.tree.IsRooted)
    (start : machine.tree.isDirectory (folder.start machine.directory) = true) :
    ∃ outcome after, (ensure folder).exec machine = (outcome, after) ∧
      Lays folder privateMode machine outcome after :=
  makeWithin_lays _ folder privateMode names rooted start (Nat.le_refl _)

/-- That a machine differs from an earlier one in directories on the way to a folder only. -/
structure Paves (folder : Path) (before m : Machine) : Prop where
  paved : Tree.Paved before.directory folder before.tree m.tree
  circumstances : before.SameCircumstances m

theorem Paves.trans {before between m : Machine} (h : Paves folder before between)
    (k : Paves folder between m) : Paves folder before m where
  paved := h.paved.trans (h.circumstances.directory ▸ k.paved)
  circumstances := h.circumstances.trans k.circumstances

theorem Paves.of_parent {before m : Machine} (h : Paves folder.parent before m) :
    Paves folder before m := ⟨h.paved.of_parent, h.circumstances⟩

theorem answer_makeDirectory_paves (machine : Machine) (path : Path) (mode : Nat) :
    Paves path machine (machine.answer (.makeDirectory path mode)).2 := by
  refine ⟨?_, machine.answer_fixed _⟩
  rcases answer_makeDirectory_cases machine path mode with ⟨after, asked, made⟩ | ⟨fault, -, asked⟩ <;>
    rw [asked]
  · exact made.paved
  · exact .refl _ _ _

theorem accept_passes {J : Machine → Prop} (path : Path) (fault : FileFault) (here : J machine) :
    (accept path fault).Passes machine J := by
  refine .bind (.bind (.ask here) fun kind after _ => ?_) fun isThere after _ => ?_
  · split <;> first | exact .pure _ | exact .throw _
  · split <;> first | exact .pure _ | exact .throw _

/-- While a folder is made, nothing but directories on the way to it appears. -/
theorem makeWithin_passes (height : Nat) (path : Path) (mode : Nat) (machine : Machine) :
    (makeWithin height path mode).Passes machine (Paves path machine) := by
  rw [makeWithin.eq_def]
  have first := answer_makeDirectory_paves machine path mode
  rcases asked : machine.answer (.makeDirectory path mode) with ⟨fault | done, after⟩ <;>
    rw [asked] at first
  · refine .ask_bind asked first ?_
    cases fault
    case absent =>
      cases height with
      | zero => exact .throw _
      | succ height =>
        have above := (makeWithin_passes height path.parent usualMode after).mono fun m hm =>
          first.trans hm.of_parent
        refine .bind_after above first fun _ between hb => ?_
        have second := hb.trans (answer_makeDirectory_paves between path mode)
        rcases again : between.answer (.makeDirectory path mode) with ⟨fault | done, last⟩ <;>
          rw [again] at second
        · refine .ask_bind again second ?_
          cases fault <;> first | exact .throw _ | exact accept_passes path _ second
        · exact .ask_bind again second (.pure _)
    all_goals exact accept_passes path _ first
  · exact .ask_bind asked first (.pure _)

theorem ensure_passes (folder : Path) (machine : Machine) :
    (ensure folder).Passes machine (Paves folder machine) :=
  makeWithin_passes _ folder privateMode machine

end Folder

namespace Tree

variable {before after : Tree} {directory : Location} {folder : Path} {name : String}

/-- What appears on the way to a folder does not stand below it. -/
theorem Paved.node?_child (paved : Paved directory folder before after)
    (names : (folder.child name).Descends) :
    after.node? ((folder.child name).goal directory) =
      before.node? ((folder.child name).goal directory) := by
  rcases paved.grown ((folder.child name).goal directory) with same | ⟨gone, mode, made⟩
  · exact same
  · obtain ⟨count, leads⟩ := paved.way _ gone (by rw [made]; simp)
    have above : Path.Descends ⟨folder.anchor, folder.parts.take count⟩ := fun part hp =>
      names part (List.mem_append_left _ (List.mem_of_mem_take hp))
    have descent := after.locate_descent directory above
    generalize hg : (folder.child name).goal directory = goal at leads
    rw [leads] at descent
    cases descent with
    | arrives =>
      have length := congrArg List.length hg
      rw [Path.goal_child, Path.goal] at length
      have start : Path.start ⟨folder.anchor, folder.parts.take count⟩ directory =
          folder.start directory := rfl
      simp only [start, List.length_append, List.length_singleton, List.length_take] at length
      omega

/-- A file on the way down is met in a tree in which everything stands in a directory. -/
theorem IsRooted.walk_blocked {tree : Tree} (rooted : tree.IsRooted) {start : Location}
    {front back : List String} (names : ∀ part ∈ front, IsFileName part) (more : back ≠ [])
    {number mode : Nat} {content : Octets}
    (file : tree.node? (start ++ front) = some (.file number mode content)) :
    tree.walk start (front ++ back) = .error .notDirectory := by
  rw [walk_append, rooted.walk_down names (by rw [file]; simp)]
  cases back with
  | nil => exact absurd rfl more
  | cons part rest =>
    show tree.walk (start ++ front) (part :: rest) = _
    rw [Tree.walk, file]

/-- What is found below a folder does not change while directories appear on the way to it. -/
theorem Paved.find_child (paved : Paved directory folder before after) (rooted : before.IsRooted)
    (names : (folder.child name).Descends) :
    after.find directory (folder.child name) = before.find directory (folder.child name) := by
  have same := paved.node?_child names
  rw [Path.goal] at same
  rw [find, find]
  generalize early : before.locate directory (folder.child name) = result
  cases early ▸ before.locate_descent directory names with
  | arrives =>
    rw [locate, paved.grown.walk_ok early]
    simp only [bind, Except.bind, same]
  | blocked =>
    rw [locate, paved.grown.walk_error (by simp) early]
    rfl
  | missing split more gone =>
    have absent : before.node? ((folder.child name).start directory ++ (folder.child name).parts) =
        none := by
      rw [split, ← List.append_assoc]
      exact rooted.node?_below gone _
    generalize late : after.locate directory (folder.child name) = result
    cases late ▸ after.locate_descent directory names with
    | arrives =>
      simp only [bind, Except.bind, same, absent]
      rfl
    | blocked split' more' file =>
      have met := rooted.walk_blocked
        (fun part hp => names part (by rw [split']; exact List.mem_append_left _ hp)) more'
        (paved.grown.of_file file)
      rw [← split'] at met
      rw [locate] at early
      cases early.symm.trans met
    | missing => rfl

end Tree

end SessionKeeper
