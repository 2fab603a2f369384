import SessionKeeper.Disk.Tree
import SessionKeeper.Proofs.Assoc

/-!
# What file operations do to a tree

A tree is known by the node at each location. Every operation changes the node of one
location, apart from a write, which goes to whichever file has the number, and from a
move, which changes two. In a numbered tree no two files share a number, so a write
changes one location as well.
-/
namespace SessionKeeper

/-- A sequence that succeeds is a first step that succeeds and a rest that does. -/
theorem exists_of_bind_ok {ε α β : Type} {x : Except ε α} {f : α → Except ε β} {b : β}
    (h : (x >>= f) = .ok b) : ∃ a, x = .ok a ∧ f a = .ok b := by
  cases x with
  | error e => nomatch h
  | ok a => exact ⟨a, rfl, h⟩

end SessionKeeper

namespace SessionKeeper.Tree

variable {tree : Tree} {directory place : Location}

@[simp] theorem node?_root : tree.node? [] = some (.directory 0o755) := rfl

theorem node?_put (tree : Tree) (location other : Location) (node : Node) (h : other ≠ []) :
    (tree.put location node).node? other = if location = other then some node
      else tree.node? other := by
  simp only [node?, if_neg h, put, Assoc.value?_put]

theorem node?_remove (tree : Tree) (location other : Location) (h : other ≠ []) :
    (tree.remove location).node? other = if location = other then none else tree.node? other := by
  simp only [node?, if_neg h, remove, Assoc.value?_remove]

theorem node?_writeFile (tree : Tree) (number : Nat) (content : Octets) (location : Location) :
    (tree.writeFile number content).node? location =
      (tree.node? location).map (Node.write number content) := by
  rw [node?, node?]
  split_ifs with h
  · rfl
  · rw [writeFile]
    induction tree.nodes with
    | nil => rfl
    | cons pair rest ih =>
      obtain ⟨place, node⟩ := pair
      rw [List.map_cons, Assoc.value?_cons, Assoc.value?_cons, ih]
      split <;> rfl

theorem isDirectory_iff (location : Location) :
    tree.isDirectory location = true ↔ ∃ mode, tree.node? location = some (.directory mode) := by
  rw [isDirectory, decide_eq_true_iff]
  constructor
  · intro h
    obtain ⟨node, hn, hk⟩ := Option.map_eq_some_iff.mp h
    cases node with
    | file number mode content => exact absurd hk (by simp [Node.kind])
    | directory mode => exact ⟨mode, hn⟩
  · rintro ⟨mode, h⟩
    rw [h]
    rfl

theorem namesBelow_eq_filterMap (tree : Tree) (l : Location) :
    tree.namesBelow l = tree.nodes.keys.filterMap fun place =>
      place.getLast?.bind fun name => if place.dropLast = l then some name else none := by
  rw [Assoc.keys, List.filterMap_map]
  refine List.filterMap_congr fun entry _ => ?_
  dsimp only [Function.comp]
  cases entry.1.getLast? <;> rfl

theorem named_below_iff {place l : Location} {name : String} :
    (place.getLast?.bind fun last => if place.dropLast = l then some last else none) = some name ↔
      place = l ++ [name] := by
  constructor
  · intro h
    obtain ⟨last, ends, front⟩ := Option.bind_eq_some_iff.mp h
    split at front
    · rename_i same
      obtain rfl := Option.some.inj front
      rw [← same]
      exact (List.dropLast_append_getLast? _ ends).symm
    · cases front
  · rintro rfl
    simp

theorem mem_namesBelow {l : Location} {name : String} :
    name ∈ tree.namesBelow l ↔ tree.node? (l ++ [name]) ≠ none := by
  rw [namesBelow_eq_filterMap, List.mem_filterMap, node?, if_neg (by simp), ← Option.isSome_iff_ne_none,
    Assoc.value?_isSome]
  constructor
  · rintro ⟨place, stands, below⟩
    exact named_below_iff.mp below ▸ stands
  · exact fun stands => ⟨_, stands, named_below_iff.mpr rfl⟩

theorem nodup_namesBelow (distinct : tree.nodes.keys.Nodup) (l : Location) :
    (tree.namesBelow l).Nodup := by
  rw [namesBelow_eq_filterMap]
  refine distinct.filterMap fun place other name here there => ?_
  rw [named_below_iff.mp here, named_below_iff.mp there]

/-- Walking the first names and then the others is walking all of them. -/
theorem walk_append (tree : Tree) (start : Location) (front back : List String) :
    tree.walk start (front ++ back) = (tree.walk start front).bind fun l => tree.walk l back := by
  induction front generalizing start with
  | nil => rfl
  | cons part rest ih =>
    rw [List.cons_append, walk, walk]
    cases tree.node? start with
    | none => rfl
    | some node =>
      cases node with
      | file number mode content => rfl
      | directory mode =>
        simp only
        split_ifs
        · exact ih _
        · rfl
        · exact ih _

/-- A path that leads somewhere still does where all directories still stand. -/
theorem walk_of_directories {after : Tree}
    (h : ∀ l, tree.isDirectory l = true → after.isDirectory l = true) (start goal : Location)
    (parts : List String) (hw : tree.walk start parts = .ok goal) :
    after.walk start parts = .ok goal := by
  induction parts generalizing start with
  | nil => exact hw
  | cons part rest ih =>
    rw [walk] at hw ⊢
    cases hn : tree.node? start with
    | none =>
      rw [hn] at hw
      exact absurd hw (by simp)
    | some node =>
      rw [hn] at hw
      cases node with
      | file number mode content => exact absurd hw (by simp)
      | directory mode =>
        obtain ⟨later, hl⟩ := (isDirectory_iff start).mp (h start ((isDirectory_iff start).mpr ⟨_, hn⟩))
        rw [hl]
        simp only at hw ⊢
        split_ifs at hw ⊢
        · exact ih _ hw
        · exact ih _ hw

/-- What is found stands at the location that the path leads to. -/
theorem of_find {path : Path} {location : Location} {node : Node}
    (hf : tree.find directory path = .ok (location, node)) :
    tree.locate directory path = .ok location ∧ tree.node? location = some node := by
  obtain ⟨found, leads, hf⟩ := exists_of_bind_ok hf
  cases hn : tree.node? found with
  | none =>
    rw [hn] at hf
    nomatch hf
  | some there =>
    rw [hn] at hf
    obtain ⟨rfl, rfl⟩ := Prod.mk.inj (Except.ok.inj hf)
    exact ⟨leads, hn⟩

theorem locate_of_find {path : Path} {location : Location} {node : Node}
    (hf : tree.find directory path = .ok (location, node)) :
    tree.locate directory path = .ok location := (of_find hf).1

theorem node?_of_find {path : Path} {location : Location} {node : Node}
    (hf : tree.find directory path = .ok (location, node)) : tree.node? location = some node :=
  (of_find hf).2

/-- A name that a file in a directory can have. -/
structure IsFileName (name : String) : Prop where
  down : name ≠ ".."
  short : isTooLong name = false

theorem locate_child {folder : Path} {name : String}
    (leads : tree.locate directory folder = .ok place) (stands : tree.isDirectory place = true)
    (hn : IsFileName name) :
    tree.locate directory (folder.child name) = .ok (place ++ [name]) := by
  obtain ⟨mode, hm⟩ := (isDirectory_iff place).mp stands
  have ha : (folder.child name).isAbsolute = folder.isAbsolute := rfl
  have hp : (folder.child name).parts = folder.parts ++ [name] := rfl
  rw [locate, ha, hp, walk_append, ← locate, leads]
  simp only [Except.bind, walk, hm, if_neg hn.down, hn.short]
  rfl

theorem locate_long {folder : Path} {name : String}
    (leads : tree.locate directory folder = .ok place) (stands : tree.isDirectory place = true)
    (hd : name ≠ "..") (hl : isTooLong name = true) :
    tree.locate directory (folder.child name) = .error .nameTooLong := by
  obtain ⟨mode, hm⟩ := (isDirectory_iff place).mp stands
  have ha : (folder.child name).isAbsolute = folder.isAbsolute := rfl
  have hp : (folder.child name).parts = folder.parts ++ [name] := rfl
  rw [locate, ha, hp, walk_append, ← locate, leads]
  simp only [Except.bind, walk, hm, if_neg hd, hl]
  rfl

theorem find_child {folder : Path} {name : String}
    (leads : tree.locate directory folder = .ok place) (stands : tree.isDirectory place = true)
    (hn : IsFileName name) :
    tree.find directory (folder.child name) = match tree.node? (place ++ [name]) with
      | some node => .ok (place ++ [name], node)
      | none => .error .absent := by
  rw [find, locate_child leads stands hn]
  simp only [bind, Except.bind]
  cases tree.node? (place ++ [name]) <;> rfl

/-- No two files of the tree share a number, and the next number is that of no file. -/
structure Numbered (tree : Tree) : Prop where
  below : ∀ location number mode content,
    tree.node? location = some (.file number mode content) → number < tree.nextNumber
  distinct : ∀ first second number mode content mode' content',
    tree.node? first = some (.file number mode content) →
      tree.node? second = some (.file number mode' content') → first = second

namespace Numbered

theorem of_files {tree after : Tree} (h : tree.Numbered) (hn : tree.nextNumber ≤ after.nextNumber)
    (same : ∀ l number mode content, after.node? l = some (.file number mode content) →
      ∃ mode content, tree.node? l = some (.file number mode content)) : after.Numbered where
  below l number mode content hl := by
    obtain ⟨_, _, ho⟩ := same l number mode content hl
    exact Nat.lt_of_lt_of_le (h.below _ _ _ _ ho) hn
  distinct first second number mode content mode' content' hf hs := by
    obtain ⟨_, _, ho⟩ := same _ _ _ _ hf
    obtain ⟨_, _, hp⟩ := same _ _ _ _ hs
    exact h.distinct _ _ _ _ _ _ _ ho hp

theorem put_directory (h : tree.Numbered) (location : Location) (mode : Nat) :
    (tree.put location (.directory mode)).Numbered := by
  refine h.of_files (Nat.le_refl _) ?_
  intro l number mode' content hl
  by_cases hr : l = []
  · subst hr
    exact absurd hl (by simp)
  · rw [node?_put _ _ _ _ hr] at hl
    split_ifs at hl
    · exact absurd hl (by simp)
    · exact ⟨mode', content, hl⟩

theorem remove (h : tree.Numbered) (location : Location) : (tree.remove location).Numbered := by
  refine h.of_files (Nat.le_refl _) ?_
  intro l number mode content hl
  by_cases hr : l = []
  · subst hr
    exact absurd hl (by simp)
  · rw [node?_remove _ _ _ hr] at hl
    split_ifs at hl
    exact ⟨mode, content, hl⟩

theorem writeFile (h : tree.Numbered) (number : Nat) (content : Octets) :
    (tree.writeFile number content).Numbered := by
  refine h.of_files (Nat.le_refl _) ?_
  intro l n mode c hl
  rw [node?_writeFile] at hl
  obtain ⟨node, hn, hw⟩ := Option.map_eq_some_iff.mp hl
  cases node with
  | directory mode' => exact absurd hw (by simp [Node.write])
  | file n' mode' c' =>
    rw [Node.write] at hw
    split_ifs at hw <;> (obtain ⟨rfl, rfl, rfl⟩ := Node.file.inj hw; exact ⟨_, _, hn⟩)

theorem put_file (h : tree.Numbered) (location : Location) (number mode : Nat) (content : Octets)
    (hb : number < tree.nextNumber)
    (own : ∀ l mode content, tree.node? l = some (.file number mode content) → l = location) :
    (tree.put location (.file number mode content)).Numbered where
  below l n mode' content' hl := by
    by_cases hr : l = []
    · subst hr
      exact absurd hl (by simp)
    · rw [node?_put _ _ _ _ hr] at hl
      split_ifs at hl
      · rw [← (Node.file.inj (Option.some.inj hl)).1]
        exact hb
      · exact h.below _ _ _ _ hl
  distinct first second n mode₁ content₁ mode₂ content₂ hf hs := by
    have at' : ∀ l mode' content', (tree.put location (.file number mode content)).node? l =
        some (.file n mode' content') → (l = location ∧ n = number) ∨
          (l ≠ location ∧ tree.node? l = some (.file n mode' content')) := by
      intro l mode' content' hl
      by_cases hr : l = []
      · subst hr
        exact absurd hl (by simp)
      · rw [node?_put _ _ _ _ hr] at hl
        split_ifs at hl with heq
        · exact Or.inl ⟨heq.symm, (Node.file.inj (Option.some.inj hl)).1.symm⟩
        · exact Or.inr ⟨fun hc => heq hc.symm, hl⟩
    rcases at' _ _ _ hf with ⟨hfirst, hn⟩ | ⟨-, hold⟩ <;>
      rcases at' _ _ _ hs with ⟨hsecond, hm⟩ | ⟨-, hkept⟩
    · rw [hfirst, hsecond]
    · rw [hn] at hkept
      rw [hfirst, own _ _ _ hkept]
    · rw [hm] at hold
      rw [hsecond, own _ _ _ hold]
    · exact h.distinct _ _ _ _ _ _ _ hold hkept

theorem put_new (h : tree.Numbered) (location : Location) (mode : Nat) (content : Octets) :
    ({ tree.put location (.file tree.nextNumber mode content) with
      nextNumber := tree.nextNumber + 1 } : Tree).Numbered := by
  have roomy : ({ tree with nextNumber := tree.nextNumber + 1 } : Tree).Numbered :=
    h.of_files (Nat.le_succ _) fun l n mode content hl => ⟨mode, content, hl⟩
  refine roomy.put_file location tree.nextNumber mode content (Nat.lt_succ_self _) ?_
  intro l mode' content hl
  exact absurd (h.below _ _ _ _ hl) (Nat.lt_irrefl _)

theorem createFile (h : tree.Numbered) (path : Path) (mode number : Nat) (after : Tree)
    (hc : tree.createFile directory path mode = .ok (number, after)) : after.Numbered := by
  obtain ⟨location, -, hc⟩ := exists_of_bind_ok hc
  cases hn : tree.node? location with
  | some node =>
    rw [hn] at hc
    nomatch hc
  | none =>
    rw [hn] at hc
    obtain ⟨rfl, rfl⟩ := Prod.mk.inj (Except.ok.inj hc)
    exact h.put_new location (masked mode) []

theorem makeDirectory (h : tree.Numbered) (path : Path) (mode : Nat) (after : Tree)
    (hm : tree.makeDirectory directory path mode = .ok after) : after.Numbered := by
  obtain ⟨location, -, hm⟩ := exists_of_bind_ok hm
  cases hn : tree.node? location with
  | some node =>
    rw [hn] at hm
    nomatch hm
  | none =>
    rw [hn] at hm
    obtain rfl := Except.ok.inj hm
    exact h.put_directory location _

theorem setMode (h : tree.Numbered) (path : Path) (mode : Nat) (after : Tree)
    (hs : tree.setMode directory path mode = .ok after) : after.Numbered := by
  obtain ⟨⟨location, node⟩, hf, hs⟩ := exists_of_bind_ok hs
  have hn := node?_of_find hf
  cases node with
  | directory old =>
    obtain rfl := Except.ok.inj hs
    exact h.put_directory location mode
  | file number old content =>
    obtain rfl := Except.ok.inj hs
    exact h.put_file location number mode content (h.below _ _ _ _ hn)
      fun l _ _ hl => h.distinct _ _ _ _ _ _ _ hl hn

theorem rename (h : tree.Numbered) (source target : Path) (after : Tree)
    (hr : tree.rename directory source target = .ok after) : after.Numbered := by
  obtain ⟨⟨origin, node⟩, hf, hr⟩ := exists_of_bind_ok hr
  obtain ⟨goal, -, hr⟩ := exists_of_bind_ok hr
  have hn := node?_of_find hf
  split_ifs at hr
  obtain rfl := Except.ok.inj hr
  cases node with
  | directory mode => exact (h.remove origin).put_directory goal mode
  | file number mode content =>
    refine (h.remove origin).put_file goal number mode content (h.below _ _ _ _ hn) ?_
    intro l mode' content' hl
    by_cases hroot : l = []
    · subst hroot
      exact absurd hl (by simp)
    · rw [node?_remove _ _ _ hroot] at hl
      split_ifs at hl with heq
      exact absurd (h.distinct _ _ _ _ _ _ _ hn hl) heq

theorem unlink (h : tree.Numbered) (path : Path) (after : Tree)
    (hu : tree.unlink directory path = .ok after) : after.Numbered := by
  obtain ⟨⟨location, node⟩, hf, hu⟩ := exists_of_bind_ok hu
  cases node with
  | directory mode => nomatch hu
  | file number mode content =>
    obtain rfl := Except.ok.inj hu
    exact h.remove location

end Numbered

end SessionKeeper.Tree
