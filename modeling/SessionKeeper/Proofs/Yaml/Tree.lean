import SessionKeeper.Proofs.Script.Yields
import SessionKeeper.Proofs.Yaml.Scan
import SessionKeeper.Yaml.Document

/-!
# What stops the reading of a document

Making a tree from tokens refuses the text for its grammar, meets the fault that no token can be
read behind, or finds more levels than there is room for. Making a document from a tree refuses it
for its grammar, finds a node that is read as a scalar and spells no value of its type, or cannot
follow all merged mappings. So where no escape asks for a code point that does not exist, no scalar
is misspelled and few enough levels begin, a text is a document or breaks the grammar.
-/
namespace SessionKeeper.Yaml

/-- Whether a token stands where another level of nodes may begin. -/
def Token.opens : Token → Bool
  | .blockSequenceStart | .blockMappingStart | .flowSequenceStart | .flowMappingStart
  | .blockEntry | .key => true
  | _ => false

/-- In how many places another level may begin. -/
def openings (tokens : List Token) : Nat := tokens.countP Token.opens

namespace Reading

/-- That reading leaves alone the fault that stands behind the tokens and goes on among them, and
fails with that fault, for the grammar, or for too many levels, if so many may begin. -/
structure SteadyAt {α : Type} (need : Nat) (reading : Reading α) (reader : NodeReader) : Prop where
  keeps : ∀ {a after}, reading reader = .ok (a, after) →
    after.stop = reader.stop ∧ openings after.tokens ≤ openings reader.tokens
  faults : ∀ {fault}, reading reader = .error fault →
    fault = .grammar ∨ reader.stop = some fault ∨ fault = .tooDeep ∧ need ≤ openings reader.tokens

/-- That it does so wherever it begins. -/
def Steady {α : Type} (need : Nat) (reading : Reading α) : Prop :=
  ∀ reader, SteadyAt need reading reader

variable {α β : Type} {need less room : Nat} {reader : NodeReader}

theorem SteadyAt.of_le {x : Reading α} (h : SteadyAt need x reader) (le : less ≤ need) :
    SteadyAt less x reader where
  keeps := h.keeps
  faults failed :=
    (h.faults failed).imp_right (.imp_right fun ⟨deep, many⟩ => ⟨deep, le.trans many⟩)

theorem Steady.of_le {x : Reading α} (h : Steady need x) (le : less ≤ need) : Steady less x :=
  fun reader => (h reader).of_le le

theorem SteadyAt.of_eq {x y : Reading α} (h : SteadyAt need y reader)
    (same : x reader = y reader) : SteadyAt need x reader where
  keeps ended := h.keeps (same.symm.trans ended)
  faults failed := h.faults (same.symm.trans failed)

theorem SteadyAt.bind {x : Reading α} {f : α → Reading β} (hx : SteadyAt need x reader)
    (hf : ∀ a, Steady need (f a)) : SteadyAt need (x >>= f) reader := by
  have step : (x >>= f) reader = x reader >>= fun result => f result.1 result.2 := rfl
  refine ⟨fun {b last} h => ?_, fun {fault} h => ?_⟩
  · obtain ⟨⟨a, between⟩, first, rest⟩ := exists_of_bind_ok h
    have kept := (hf a between).keeps rest
    exact ⟨kept.1.trans (hx.keeps first).1, kept.2.trans (hx.keeps first).2⟩
  · rw [step] at h
    rcases first : x reader with other | ⟨a, between⟩ <;> rw [first] at h
    · obtain rfl := Except.error.inj h
      exact hx.faults first
    · have kept := hx.keeps first
      rw [← kept.1]
      exact ((hf a between).faults h).imp_right
        (.imp_right fun ⟨deep, many⟩ => ⟨deep, many.trans kept.2⟩)

/-- What the next token is is known where it was looked at. -/
theorem SteadyAt.peek_bind {f : Option Token → Reading β}
    (h : ∀ next, reader.tokens.head? = next → SteadyAt need (f next) reader) :
    SteadyAt need (Reading.peek >>= f) reader := by
  obtain ⟨_ | ⟨token, tokens⟩, _ | fault, anchors, handles⟩ := reader
  · exact (h none rfl).of_eq rfl
  · exact ⟨nofun, fun failed => .inr (.inl (congrArg some (Except.error.inj failed)))⟩
  · exact (h (some token) rfl).of_eq rfl
  · exact (h (some token) rfl).of_eq rfl

theorem SteadyAt.get_bind {f : NodeReader → Reading β}
    (h : ∀ known, SteadyAt need (f known) reader) :
    SteadyAt need (MonadState.get >>= f) reader := (h reader).of_eq rfl

theorem SteadyAt.ite {c : Prop} [Decidable c] {x y : Reading α} (hx : SteadyAt need x reader)
    (hy : SteadyAt need y reader) : SteadyAt need (if c then x else y) reader := by
  split_ifs
  · exact hx
  · exact hy

theorem one_le_openings {tokens : List Token} {token : Token} (next : tokens.head? = some token)
    (opens : token.opens = true) : 1 ≤ openings tokens := by
  obtain ⟨rest, rfl⟩ := List.head?_eq_some_iff.mp next
  rw [openings, List.countP_cons_of_pos opens]
  exact Nat.le_add_left 1 _

theorem SteadyAt.descend_bind {f : Nat → Reading β}
    (full : room = 0 → need ≤ openings reader.tokens)
    (h : ∀ inner, room = inner + 1 → SteadyAt need (f inner) reader) :
    SteadyAt need (descend room >>= f) reader := by
  cases room with
  | zero => exact ⟨nofun, fun failed => .inr (.inr ⟨(Except.error.inj failed).symm, full rfl⟩)⟩
  | succ inner => exact (h inner rfl).of_eq rfl

/-- Behind a token that opens a level one level less may begin. -/
theorem SteadyAt.drop_bind {f : Unit → Reading β} {token : Token}
    (next : reader.tokens.head? = some token) (opens : token.opens = true)
    (h : Steady need (f ())) :
    SteadyAt (need + 1) (Reading.drop >>= f) reader := by
  obtain ⟨_ | ⟨head, rest⟩, stop, anchors, handles⟩ := reader
  · cases next
  obtain rfl := Option.some.inj next
  have fewer : openings (head :: rest) = openings rest + 1 := List.countP_cons_of_pos opens
  have behind := h ⟨rest, stop, anchors, handles⟩
  refine ⟨fun ended => ?_, fun failed => ?_⟩
  · have kept := behind.keeps ended
    exact ⟨kept.1, kept.2.trans (by rw [fewer]; exact Nat.le_succ _)⟩
  · refine (behind.faults failed).imp_right (.imp_right fun ⟨deep, many⟩ => ⟨deep, ?_⟩)
    rw [fewer]
    exact Nat.succ_le_succ many

namespace Steady

theorem pure (a : α) : Steady need (Pure.pure a : Reading α) := fun reader => by
  refine ⟨fun h => ?_, nofun⟩
  obtain rfl := (Prod.mk.inj (Except.ok.inj h)).2
  exact ⟨rfl, le_rfl⟩

theorem refuse : Steady need (Reading.refuse : Reading α) :=
  fun _ => ⟨nofun, fun h => .inl (Except.error.inj h).symm⟩

/-- Nothing comes after a refusal. -/
theorem refuse_bind {f : α → Reading β} : Steady need (Reading.refuse >>= f) :=
  fun _ => ⟨nofun, fun h => .inl (Except.error.inj h).symm⟩

theorem bind {x : Reading α} {f : α → Reading β} (hx : Steady need x)
    (hf : ∀ a, Steady need (f a)) : Steady need (x >>= f) := fun reader => (hx reader).bind hf

theorem ite {c : Prop} [Decidable c] {x y : Reading α} (hx : Steady need x) (hy : Steady need y) :
    Steady need (if c then x else y) := fun reader => (hx reader).ite (hy reader)

theorem get_bind {f : NodeReader → Reading β} (h : ∀ known, Steady need (f known)) :
    Steady need (MonadState.get >>= f) := fun reader => .get_bind fun known => h known reader

theorem peek_bind {f : Option Token → Reading β} (h : ∀ next, Steady need (f next)) :
    Steady need (Reading.peek >>= f) := fun reader => .peek_bind fun next _ => h next reader

theorem of_modify {f : NodeReader → NodeReader}
    (h : ∀ reader, (f reader).stop = reader.stop ∧
      openings (f reader).tokens ≤ openings reader.tokens) :
    Steady need (modify f : Reading Unit) := fun reader => by
  refine ⟨fun same => ?_, nofun⟩
  obtain rfl := (Prod.mk.inj (Except.ok.inj same)).2
  exact h reader

theorem drop : Steady need Reading.drop :=
  of_modify fun reader => ⟨rfl, (List.drop_sublist 1 reader.tokens).countP_le⟩

theorem sees (tokens : List Token) : Steady need (Reading.sees tokens) := peek_bind fun _ => pure _

theorem accepts (token : Token) : Steady need (Reading.accepts token) :=
  (sees _).bind fun _ => ite (drop.bind fun _ => pure _) (pure _)

/-- Behind a token that opens a level and was accepted, one level less may begin. -/
theorem accepts_bind {f : Bool → Reading β} {token : Token} (opens : token.opens = true)
    (accepted : Steady need (f true)) (other : Steady (need + 1) (f false)) :
    Steady (need + 1) (Reading.accepts token >>= f) := by
  intro reader
  have split : Reading.accepts token >>= f = Reading.peek >>= fun next =>
      if next.any fun found => [token].contains found then Reading.drop >>= fun _ => f true
      else f false := by
    rw [Reading.accepts, Reading.sees]
    simp only [bind_assoc, pure_bind]
    refine congrArg (Reading.peek >>= ·) (funext fun next => ?_)
    split <;> simp only [bind_assoc, pure_bind]
  rw [split]
  refine .peek_bind fun next is => ?_
  split_ifs with there
  · obtain ⟨found, rfl⟩ := Option.isSome_iff_exists.mp (Option.isSome_of_any there)
    obtain rfl : found = token := by simpa using there
    exact .drop_bind is opens accepted
  · exact other reader

theorem name (anchor : Option String) (node : Node) : Steady need (Reading.name anchor node) := by
  cases anchor
  · exact pure ()
  · exact of_modify fun _ => ⟨rfl, le_rfl⟩

theorem named (anchor : Option String) (node : Node) : Steady need (Reading.named anchor node) :=
  (name _ _).bind fun _ => pure _

theorem resolveTag (written : WrittenTag) : Steady need (Reading.resolveTag written) := by
  rw [Reading.resolveTag]
  split
  · exact pure _
  · refine get_bind fun reader => ?_
    split
    · exact pure _
    · exact refuse

theorem anchor? : Steady need Reading.anchor? := by
  refine peek_bind fun next => ?_
  split
  · exact drop.bind fun _ => pure _
  · exact pure _

theorem tag? : Steady need Reading.tag? := by
  refine peek_bind fun next => ?_
  split
  · exact drop.bind fun _ => pure _
  · exact pure _

theorem properties : Steady need Reading.properties := by
  refine anchor?.bind fun anchor => tag?.bind fun written => ?_
  cases written <;> split_ifs
  · exact anchor?.bind fun _ => pure _
  · exact pure _
  · exact anchor?.bind fun _ => (resolveTag _).bind fun _ => pure _
  · exact (pure anchor).bind fun _ => (resolveTag _).bind fun _ => pure _

theorem empty (anchor : Option String) (tag : Option Tag) :
    Steady need (Reading.empty anchor tag) := by
  rw [Reading.empty]
  exact ite refuse (named _ _)

theorem flowSeparator (first : Bool) : Steady need (Reading.flowSeparator first) := by
  rw [Reading.flowSeparator]
  exact ite (pure _) ((accepts _).bind fun _ => ite (pure _) refuse)

end Steady

/-- That everything which reads nodes with so much fuel is steady: it fails for too many levels only
where more may begin than there is room for. The entries of a sequence that is not indented are
behind the token that begins it. -/
structure AllSteady (fuel : Nat) : Prop where
  node : ∀ room inBlock flat, Steady (room + 1) (node room fuel inBlock flat)
  nodeUnless : ∀ room ends inBlock flat, Steady (room + 1) (nodeUnless room fuel ends inBlock flat)
  blockItems : ∀ room, Steady (room + 1) (blockItems room fuel)
  flatItems : ∀ room, Steady (room + 2) (flatItems room fuel)
  blockPairs : ∀ room, Steady (room + 1) (blockPairs room fuel)
  valueNode : ∀ room ends inBlock, Steady (room + 1) (valueNode room fuel ends inBlock)
  flowItems : ∀ room first, Steady (room + 1) (flowItems room fuel first)
  flowPairs : ∀ room first, Steady (room + 1) (flowPairs room fuel first)

namespace AllSteady

variable {fuel : Nat}

theorem collection {items : Nat → Reading α} {token : Token} {anchor : Option String} {own : Node}
    {made : α → Node} (next : reader.tokens.head? = some token) (opens : token.opens = true)
    (h : ∀ inner, Steady (inner + 1) (items inner)) : SteadyAt (room + 1) (do
      let inner ← descend room
      drop
      name anchor own
      named anchor (made (← items inner))) reader := by
  refine .descend_bind (fun full => full ▸ one_le_openings next opens) fun inner enough => ?_
  subst enough
  refine .drop_bind next opens ?_
  exact (Steady.name _ _).bind fun _ => (h inner).bind fun _ => .named _ _

theorem node_succ (all : AllSteady fuel) (room : Nat) (inBlock flat : Bool) :
    Steady (room + 1) (Reading.node room (fuel + 1) inBlock flat) := by
  rw [Reading.node]
  refine Steady.peek_bind fun next => ?_
  split
  · refine Steady.drop.bind fun _ => Steady.get_bind fun reader => ?_
    split
    · exact .pure _
    · exact .refuse
  · refine Steady.properties.bind fun found reader => ?_
    obtain ⟨anchor, tag⟩ := found
    refine .peek_bind fun next is => .get_bind fun known => ?_
    refine .ite (Steady.refuse_bind reader) ?_
    dsimp only
    split
    · refine .ite ?_ (Steady.empty _ _ _)
      refine .descend_bind (fun full => full ▸ one_le_openings is rfl) fun inner enough => ?_
      subst enough
      exact ((Steady.name _ _).bind fun _ => (all.flatItems inner).bind fun _ => .named _ _) _
    · exact (Steady.drop.bind fun _ => .named _ _) _
    · exact collection is rfl fun inner => all.flowItems _ _
    · exact collection is rfl fun inner => all.flowPairs _ _
    · exact .ite (collection is rfl all.blockItems) (Steady.empty _ _ _)
    · exact .ite (collection is rfl all.blockPairs) (Steady.empty _ _ _)
    · exact Steady.empty _ _ _

theorem succ (all : AllSteady fuel) : AllSteady (fuel + 1) where
  node := all.node_succ
  nodeUnless room ends inBlock flat := by
    rw [Reading.nodeUnless]
    exact (Steady.sees _).bind fun _ => .ite (.pure _) (all.node _ _ _)
  blockItems room := by
    rw [Reading.blockItems]
    refine (Steady.accepts _).bind fun _ => .ite ?_ ?_
    · exact (all.nodeUnless _ _ _ _).bind fun _ => (all.blockItems _).bind fun _ => .pure _
    · exact (Steady.accepts _).bind fun _ => .ite (.pure _) .refuse
  flatItems room := by
    rw [Reading.flatItems]
    refine .accepts_bind rfl ?_ (.pure _)
    exact (all.nodeUnless _ _ _ _).bind fun _ =>
      ((all.flatItems _).of_le (Nat.le_succ _)).bind fun _ => .pure _
  blockPairs room := by
    rw [Reading.blockPairs]
    refine (Steady.accepts _).bind fun _ => .ite ?_ ?_
    · exact (all.nodeUnless _ _ _ _).bind fun _ => (all.valueNode _ _ _).bind fun _ =>
        (all.blockPairs _).bind fun _ => .pure _
    · exact (Steady.accepts _).bind fun _ => .ite (.pure _) .refuse
  valueNode room ends inBlock := by
    rw [Reading.valueNode]
    exact (Steady.accepts _).bind fun _ => .ite (all.nodeUnless _ _ _ _) (.pure _)
  flowItems room first := by
    rw [Reading.flowItems]
    refine (Steady.accepts _).bind fun _ => .ite (.pure _) ?_
    refine (Steady.flowSeparator _).bind fun _ => .accepts_bind rfl (fun reader => ?_) ?_
    · refine .descend_bind (fun full => full ▸ Nat.zero_le _) fun inner enough => ?_
      subst enough
      exact ((all.nodeUnless _ _ _ _).bind fun _ => (all.valueNode _ _ _).bind fun _ =>
        ((all.flowItems _ _).of_le (Nat.le_succ _)).bind fun _ => .pure _) reader
    · refine (Steady.accepts _).bind fun _ => .ite (.pure _) ?_
      exact (all.node _ _ _).bind fun _ => (all.flowItems _ _).bind fun _ => .pure _
  flowPairs room first := by
    rw [Reading.flowPairs]
    refine (Steady.accepts _).bind fun _ => .ite (.pure _) ?_
    refine (Steady.flowSeparator _).bind fun _ => (Steady.accepts _).bind fun _ => .ite ?_ ?_
    · exact (all.nodeUnless _ _ _ _).bind fun _ => (all.valueNode _ _ _).bind fun _ =>
        (all.flowPairs _ _).bind fun _ => .pure _
    · refine (Steady.accepts _).bind fun _ => .ite (.pure _) ?_
      exact (all.node _ _ _).bind fun _ => (all.flowPairs _ _).bind fun _ => .pure _

end AllSteady

theorem allSteady (fuel : Nat) : AllSteady fuel := by
  induction fuel with
  | zero =>
    constructor <;> intros
    case node => rw [node]; exact .refuse
    case nodeUnless => rw [nodeUnless]; exact .refuse
    case blockItems => rw [blockItems]; exact .refuse
    case flatItems => rw [flatItems]; exact .refuse
    case blockPairs => rw [blockPairs]; exact .refuse
    case valueNode => rw [valueNode]; exact .refuse
    case flowItems => rw [flowItems]; exact .refuse
    case flowPairs => rw [flowPairs]; exact .refuse
  | succ fuel ih => exact ih.succ

theorem Steady.seesDirective : Steady need seesDirective := by
  refine Steady.peek_bind fun next => ?_
  split <;> exact .pure _

theorem Steady.directives (fuel : Nat) (versioned : Bool) (handles : Assoc String String) :
    Steady need (directives fuel versioned handles) := by
  induction fuel generalizing versioned handles with
  | zero => exact .refuse
  | succ fuel ih =>
    rw [Reading.directives]
    refine Steady.peek_bind fun next => ?_
    split
    · exact Steady.drop.bind fun _ => .ite .refuse (ih _ _)
    · exact Steady.drop.bind fun _ => .ite .refuse (ih _ _)
    · exact Steady.drop.bind fun _ => ih _ _
    · exact .pure _

theorem Steady.documentEnds (fuel : Nat) : Steady need (documentEnds fuel) := by
  induction fuel with
  | zero => exact .refuse
  | succ fuel ih =>
    rw [Reading.documentEnds]
    refine (Steady.accepts _).bind fun _ => .ite ih ?_
    refine Steady.peek_bind fun next => .ite (.pure _) ?_
    exact (Steady.directives _ _ _).bind fun _ => .refuse

theorem Steady.document [Runtime] (fuel : Nat) : Steady (Runtime.composes + 1) (document fuel) := by
  have all := allSteady fuel
  refine Steady.peek_bind fun first => .ite (.pure _) ?_
  refine Steady.seesDirective.bind fun directed => (Steady.sees _).bind fun marked => ?_
  have ending (root : Node) : Steady (Runtime.composes + 1) (do
      Reading.documentEnds fuel
      return some root) := (Steady.documentEnds _).bind fun _ => .pure _
  refine .ite ?_ ((all.node _ _ _).bind fun root => ending root)
  refine (Steady.directives _ _ _).bind fun own => ?_
  dsimp only
  refine Steady.bind (.of_modify fun _ => ⟨rfl, le_rfl⟩) fun _ => ?_
  refine (Steady.accepts _).bind fun _ => .ite ?_ (Steady.refuse.bind fun root => ending root)
  refine Steady.seesDirective.bind fun _ => (Steady.sees _).bind fun _ =>
    Steady.peek_bind fun next => .ite ?_ ((all.node _ _ _).bind fun root => ending root)
  exact (Steady.pure _).bind fun root => ending root

end Reading

/-- Making a tree of a text stops for the grammar, where no more tokens can be read, or where there
are too many levels, and then more may begin than there is room for. -/
theorem Node.ofText?_error [Runtime] {text : List Char} {fault : Fault}
    (h : Node.ofText? text = .error fault) : fault = .grammar ∨
      (∃ value, fault = .value value ∧ HasFarEscape text) ∨
      fault = .tooDeep ∧ Runtime.composes < openings (tokens text).tokens := by
  let reader : NodeReader :=
    ⟨(tokens text).tokens, (tokens text).stop, [], Reading.standardHandles⟩
  have steady := Reading.Steady.document (3 * (tokens text).tokens.length + 10)
  rcases read : Reading.document (3 * (tokens text).tokens.length + 10) reader with other | result
  · have same : Node.ofText? text = .error other := by
      rw [Node.ofText?]
      exact congrArg (· >>= fun result => pure result.1) read
    obtain rfl := Except.error.inj (same.symm.trans h)
    rcases (steady reader).faults read with grammar | stopped | deep
    · exact .inl grammar
    · exact (tokens_stop stopped).imp_right .inl
    · exact .inr (.inr deep)
  · have same : Node.ofText? text = .ok result.1 := by
      rw [Node.ofText?]
      exact congrArg (· >>= fun result => pure result.1) read
    cases same.symm.trans h


/-- Spelling a value needs no room. -/
theorem Value.ofScalar_ne_tooDeep (tag : Tag) (t : Text) :
    Value.ofScalar tag t ≠ .error .tooDeep := by
  have checked (result : Except ValueFault Unit) :
      (result.map fun () => Value.scalar).mapError Fault.value ≠ .error .tooDeep := by
    cases result <;> exact nofun
  rw [ofScalar]
  dsimp only
  split_ifs
  · exact nofun
  · exact nofun
  · exact checked _
  · exact checked _
  · exact checked _
  · exact checked _
  · split <;> exact nofun
  · exact nofun

namespace Node

/-- That a node is one of the nodes of a tree. -/
inductive IsIn (node : Node) : Node → Prop where
  | self : IsIn node node
  | item {tag : Tag} {items : List Node} {item : Node} (there : item ∈ items) (h : IsIn node item) :
    IsIn node (.sequence tag items)
  | key {tag : Tag} {pairs : List (Node × Node)} {pair : Node × Node} (there : pair ∈ pairs)
    (h : IsIn node pair.1) : IsIn node (.mapping tag pairs)
  | value {tag : Tag} {pairs : List (Node × Node)} {pair : Node × Node} (there : pair ∈ pairs)
    (h : IsIn node pair.2) : IsIn node (.mapping tag pairs)

/-- That a node has a text when it is read as a scalar: its own one, or that of a mapping's own
value. -/
inductive HasText : Node → Text → Prop where
  | own {tag : Tag} {t : Text} : HasText (.scalar tag t) t
  | value {tag : Tag} {pairs : List (Node × Node)} {key item : Node} {t : Text}
    (found : pairs.find? (fun (key, _) => key.tag = Tag.value) = some (key, item))
    (h : HasText item t) : HasText (.mapping tag pairs) t

/-- That the text of a node spells no value of the type that it is tagged with. -/
def IsMisspelled (node : Node) (fault : ValueFault) : Prop :=
  ∃ t, HasText node t ∧ Value.ofScalar node.tag t = .error (.value fault)

theorem IsIn.trans {a b c : Node} (h : IsIn a b) (k : IsIn b c) : IsIn a c := by
  induction k with
  | self => exact h
  | item there _ ih => exact .item there ih
  | key there _ ih => exact .key there ih
  | value there _ ih => exact .value there ih

theorem size_pos (node : Node) : 0 < node.size := by
  cases node <;> rw [size] <;> omega

theorem size_le_sizes {item : Node} {items : List Node} (there : item ∈ items) :
    item.size ≤ sizes items := by
  induction items with
  | nil => cases there
  | cons head rest ih =>
    rw [sizes]
    rcases List.mem_cons.mp there with rfl | there
    · omega
    · exact (ih there).trans (Nat.le_add_left _ _)

theorem size_le_pairSizes {pair : Node × Node} {pairs : List (Node × Node)} (there : pair ∈ pairs) :
    pair.1.size + pair.2.size ≤ pairSizes pairs := by
  induction pairs with
  | nil => cases there
  | cons head rest ih =>
    rw [pairSizes]
    rcases List.mem_cons.mp there with rfl | there
    · omega
    · exact (ih there).trans (Nat.le_add_left _ _)

/-- A node of a tree has no more nodes than the tree. -/
theorem IsIn.size_le {node root : Node} (h : IsIn node root) : node.size ≤ root.size := by
  induction h with
  | self => exact le_rfl
  | item there _ ih =>
    rw [size]
    have := size_le_sizes there
    omega
  | key there _ ih =>
    rw [size]
    have := size_le_pairSizes there
    omega
  | value there _ ih =>
    rw [size]
    have := size_le_pairSizes there
    omega

/-- That what is made of nodes of a tree is as it should be, or refused for the grammar, for a
misspelled node of the tree or, under a condition, for too many levels. -/
inductive Settles {α : Type} (deep : Prop) (root : Node) (good : α → Prop) :
    Except Fault α → Prop where
  | ok {a : α} (h : good a) : Settles deep root good (.ok a)
  | grammar : Settles deep root good (.error .grammar)
  | tooDeep (h : deep) : Settles deep root good (.error .tooDeep)
  | misspelled {node : Node} {fault : ValueFault} (there : IsIn node root)
    (h : node.IsMisspelled fault) : Settles deep root good (.error (.value fault))

namespace Settles

variable {α β : Type} {deep : Prop} {root : Node} {good : α → Prop} {better : β → Prop}

theorem pure {a : α} (h : good a) : Settles deep root good (Pure.pure a) := .ok h

theorem ungrammatical : Settles deep root good ungrammatical := .grammar

theorem mono {x : Except Fault α} {better : α → Prop} (hx : Settles deep root good x)
    (h : ∀ a, good a → better a) : Settles deep root better x := by
  cases hx with
  | ok told => exact .ok (h _ told)
  | grammar => exact .grammar
  | tooDeep told => exact .tooDeep told
  | misspelled there told => exact .misspelled there told

theorem imp {x : Except Fault α} {wide : Prop} (hx : Settles deep root good x)
    (h : deep → wide) : Settles wide root good x := by
  cases hx with
  | ok told => exact .ok told
  | grammar => exact .grammar
  | tooDeep told => exact .tooDeep (h told)
  | misspelled there told => exact .misspelled there told

theorem bind {x : Except Fault α} {f : α → Except Fault β} (hx : Settles deep root good x)
    (hf : ∀ a, good a → Settles deep root better (f a)) : Settles deep root better (x >>= f) := by
  cases hx with
  | ok h => exact hf _ h
  | grammar => exact .grammar
  | tooDeep h => exact .tooDeep h
  | misspelled there h => exact .misspelled there h

theorem ite {c : Prop} [Decidable c] {x y : Except Fault α} (hx : Settles deep root good x)
    (hy : Settles deep root good y) : Settles deep root good (if c then x else y) := by
  split_ifs
  · exact hx
  · exact hy

theorem mapM {f : β → Except Fault α} {xs : List β} (h : ∀ x ∈ xs, Settles deep root good (f x)) :
    Settles deep root (fun ys => ∀ y ∈ ys, good y) (xs.mapM f) := by
  induction xs with
  | nil => exact .pure nofun
  | cons x xs ih =>
    rw [List.mapM_cons]
    refine (h x List.mem_cons_self).bind fun y first => ?_
    refine (ih fun x hx => h x (List.mem_cons_of_mem _ hx)).bind fun ys rest => .pure ?_
    exact List.forall_mem_cons.mpr ⟨first, rest⟩

end Settles

variable {root node : Node} {pairs : List (Node × Node)}

/-- The text that a node has is found, or there is none. -/
theorem scalarText_settles (room : Nat) (node : Node) :
    Settles (room < node.size) root (HasText node) (scalarText room node) := by
  induction room generalizing node with
  | zero => exact .tooDeep node.size_pos
  | succ room ih =>
    cases node with
    | scalar tag t => exact .ok .own
    | mapping tag pairs =>
      rw [scalarText]
      split
      · rename_i found
        refine ((ih _).mono fun t h => .value found h).imp fun less => ?_
        have := size_le_pairSizes (List.mem_of_find?_eq_some found)
        rw [size]
        dsimp only at this
        omega
      · exact .ungrammatical
    | sequence => exact .grammar
    | loop => exact .grammar

theorem value_settles (room : Nat) (there : IsIn node root) :
    Settles (room < root.size) root (fun _ => True) (node.value room) := by
  have spelled : Settles (room < root.size) root (fun _ => True)
      (scalarText room node >>= fun t => Value.ofScalar node.tag t) := by
    have text : Settles (room < root.size) root (HasText node) (scalarText room node) :=
      (scalarText_settles room node).imp (·.trans_le there.size_le)
    refine text.bind fun t h => ?_
    rcases read : Value.ofScalar node.tag t with (_ | fault | _) | value
    · exact .grammar
    · exact .misspelled there ⟨t, h, read⟩
    · exact absurd read (Value.ofScalar_ne_tooDeep _ _)
    · exact .ok trivial
  rw [Node.value.eq_def]
  split
  · exact .ok trivial
  · split
    · exact .ok trivial
    · exact spelled

/-- Plain text is no misspelled key. -/
theorem value_text (room : Nat) (t : Text) :
    Settles (room < root.size) root (fun _ => True) ((Node.scalar Tag.text t).value room) := by
  cases room with
  | zero => exact .tooDeep root.size_pos
  | succ room => exact .ok trivial

/-- That the nodes of a list are in a tree. -/
def AllIn (root : Node) (nodes : List Node) : Prop := ∀ node ∈ nodes, IsIn node root

theorem allIn_of_sequence {tag : Tag} {items : List Node} (there : IsIn (.sequence tag items) root) :
    AllIn root items :=
  fun _ h => (IsIn.item h .self).trans there

theorem AllIn.flatten {parts : List (List Node)} (h : ∀ nodes ∈ parts, AllIn root nodes) :
    AllIn root parts.flatten := by
  intro node hn
  obtain ⟨nodes, listed, hn⟩ := List.mem_flatten.mp hn
  exact h nodes listed node hn

/-- That the nodes of pairs are in a tree, or plain text for a key. -/
def AreIn (root : Node) (pairs : List (Node × Node)) : Prop :=
  ∀ pair ∈ pairs, (IsIn pair.1 root ∨ ∃ t, pair.1 = .scalar Tag.text t) ∧ IsIn pair.2 root

theorem areIn_of_mapping {tag : Tag} (there : IsIn (.mapping tag pairs) root) : AreIn root pairs :=
  fun _ h => ⟨.inl ((IsIn.key h .self).trans there), (IsIn.value h .self).trans there⟩

/-- What is merged stands in the tree, and inside the node that is merged. -/
theorem mergedPairs_settles {deep : Prop} (there : IsIn node root) : Settles deep root
    (fun parts => ∀ pairs ∈ parts, AreIn root pairs ∧ pairSizes pairs < node.size)
      (mergedPairs node) := by
  cases node with
  | mapping tag pairs =>
    refine .ok fun others h => ?_
    obtain rfl := List.mem_singleton.mp h
    refine ⟨areIn_of_mapping there, ?_⟩
    rw [size]
    omega
  | sequence tag items =>
    refine (Settles.mapM fun item h => (?_ : Settles deep root (fun pairs => AreIn root pairs ∧
      pairSizes pairs < (sequence tag items).size) _)).bind fun parts h =>
        .pure fun pairs hp => h pairs (List.mem_reverse.mp hp)
    have inside := allIn_of_sequence there item h
    have smaller := size_le_sizes h
    rw [size]
    split
    · rw [size] at smaller
      exact .ok ⟨areIn_of_mapping inside, by omega⟩
    · exact .ok ⟨nofun, by rw [pairSizes]; omega⟩
    · exact .ungrammatical
  | loop isMapping =>
    cases isMapping
    · exact .grammar
    · exact .ok nofun
  | scalar => exact .grammar

theorem AreIn.flatten {parts : List (List (Node × Node))} (h : ∀ pairs ∈ parts, AreIn root pairs) :
    AreIn root parts.flatten := by
  intro pair hp
  obtain ⟨pairs, listed, hp⟩ := List.mem_flatten.mp hp
  exact h pairs listed pair hp

/-- Merging brings no nodes in that do not stand in the tree. -/
theorem flatten_settles (room : Nat) (there : AreIn root pairs) :
    Settles (room ≤ pairSizes pairs) root (AreIn root) (Node.flatten room pairs) := by
  induction room generalizing pairs with
  | zero => exact .tooDeep (Nat.zero_le _)
  | succ room ih =>
    rw [Node.flatten]
    refine (Settles.mapM fun pair h => (?_ : Settles _ root (AreIn root) _)).bind fun parts h =>
      .pure ?_
    · obtain ⟨key, value⟩ := pair
      refine .ite ?_ (.pure nofun)
      refine (mergedPairs_settles (there _ h).2).bind fun merged hm => ?_
      have smaller := size_le_pairSizes h
      have parts : Settles (room + 1 ≤ pairSizes pairs) root
          (fun parts => ∀ pairs ∈ parts, AreIn root pairs) (merged.mapM (flatten room)) :=
        .mapM fun inner hp => (ih (hm inner hp).1).imp fun many => by
          have := (hm inner hp).2
          dsimp only at this smaller
          omega
      exact parts.bind fun flat hf => .pure (.flatten hf)
    · intro pair hp
      rcases List.mem_append.mp hp with hp | hp
      · exact AreIn.flatten h pair hp
      · obtain ⟨⟨key, value⟩, listed, kept⟩ := List.mem_filterMap.mp hp
        obtain ⟨known, inside⟩ := there _ listed
        dsimp only at kept known inside
        split_ifs at kept
        split at kept
        · obtain rfl := Option.some.inj kept
          refine ⟨?_, inside⟩
          dsimp only
          split_ifs
          · exact .inr ⟨_, rfl⟩
          · exact known
        · obtain rfl := Option.some.inj kept
          exact ⟨known, inside⟩

theorem pairValues_settles (room : Nat) (there : AreIn root pairs) :
    Settles (room < root.size) root (fun _ => True) (pairValues room pairs) := by
  refine (Settles.mapM fun pair h => (?_ : Settles _ root (fun _ => True) _)).mono
    fun _ _ => trivial
  obtain ⟨known, inside⟩ := there pair h
  have name : Settles (room < root.size) root (fun _ => True) (pair.1.value room) := by
    obtain inside | ⟨t, text⟩ := known
    · exact value_settles room inside
    · rw [text]
      exact value_text room t
  refine name.bind fun _ _ => .ite .ungrammatical ?_
  exact (value_settles room inside).bind fun _ _ => .pure trivial

/-- The pairs of a mapping in a tree have fewer nodes than the tree. -/
theorem pairSizes_lt {tag : Tag} (there : IsIn (.mapping tag pairs) root) :
    pairSizes pairs < root.size := by
  have := there.size_le
  rw [size] at this
  omega

theorem inside_settles (room : Nat) (there : IsIn node root) :
    Settles (room < root.size) root (AllIn root) (inside room node) := by
  have whole {pairs : List (Node × Node)} {tag : Tag} (there : IsIn (.mapping tag pairs) root) :
      Settles (room < root.size) root (AllIn root) (do
        let pairs ← flatten room pairs
        let _ ← pairValues room pairs
        return pairs.map Prod.snd) := by
    have flat :=
      (flatten_settles room (areIn_of_mapping there)).imp (·.trans_lt (pairSizes_lt there))
    refine flat.bind fun flat inside => ?_
    refine (pairValues_settles room inside).bind fun _ _ => .pure fun node hn => ?_
    obtain ⟨pair, listed, rfl⟩ := List.mem_map.mp hn
    exact (inside pair listed).2
  rw [inside.eq_def]
  split
  · have items := allIn_of_sequence there
    exact (Settles.mapM fun item h => value_settles room (items item h)).bind fun _ _ => .pure items
  · exact whole there
  · exact whole there
  · refine (Settles.mapM fun item h => (?_ : Settles _ root (AllIn root) _)).bind fun parts h =>
      .pure (.flatten h)
    split
    · rename_i tag key value
      have pair := allIn_of_sequence there _ h
      have first : IsIn key root := (IsIn.key List.mem_cons_self .self).trans pair
      have second : IsIn value root := (IsIn.value List.mem_cons_self .self).trans pair
      refine (value_settles room first).bind fun _ _ => ?_
      refine (value_settles room second).bind fun _ _ => .pure ?_
      exact List.forall_mem_cons.mpr ⟨first, List.forall_mem_singleton.mpr second⟩
    · exact .ungrammatical
  · exact .ok nofun
  · exact .ok nofun
  · exact .ungrammatical

theorem checkInside_settles (room levels : Nat) {nodes : List Node} (there : AllIn root nodes) :
    Settles (room < root.size) root (fun _ => True) (checkInside room levels nodes) := by
  induction levels generalizing nodes with
  | zero => exact .ok trivial
  | succ levels ih =>
    rw [checkInside]
    refine (Settles.mapM fun node h => inside_settles room (there node h)).bind fun next h => ?_
    exact .ite (.pure trivial) (ih (.flatten h))

/-- A tree stands for a document, unless it breaks the grammar, a node in it is misspelled or it has
more nodes than there is room for following merged mappings. -/
theorem document_settles [Runtime] (root : Node) :
    Settles (Runtime.merges < root.size) root (fun _ => True) root.document := by
  have whole : AllIn root [root] := List.forall_mem_singleton.mpr .self
  unfold document
  refine (value_settles _ .self).bind fun value _ => ?_
  refine (checkInside_settles _ _ whole).bind fun _ _ => ?_
  split
  · exact .pure trivial
  · rename_i tag pairs _ _
    have there : IsIn (.mapping tag pairs) (.mapping tag pairs) := .self
    have flat := flatten_settles Runtime.merges (areIn_of_mapping there)
    refine (flat.imp (·.trans_lt (pairSizes_lt there))).bind fun flat inside => ?_
    exact (pairValues_settles _ inside).bind fun _ _ => .pure trivial
  · exact .pure trivial

end Node

variable {text : List Char}

/-- What is misspelled in a text: an escape for a number that no code point has, or a scalar that
spells no value of its type. -/
inductive Misspells [Runtime] (text : List Char) (fault : ValueFault) : Prop where
  | escape (h : HasFarEscape text)
  | scalar {root node : Node} (h : Node.ofText? text = .ok (some root)) (there : node.IsIn root)
    (misspelled : node.IsMisspelled fault)

/-- What is deep about a text: there are more places among its tokens where a level may begin than
there is room for, or more nodes in its tree than merged mappings can be followed through. -/
inductive IsDeep [Runtime] (text : List Char) : Prop where
  | begun (many : Runtime.composes < openings (tokens text).tokens)
  | merged {root : Node} (h : Node.ofText? text = .ok (some root))
    (many : Runtime.merges < root.size)

/-- Why a text is no document: it breaks the grammar, is misspelled or is too deep. -/
theorem Document.ofText?_error [Runtime] {fault : Fault}
    (h : Document.ofText? text = .error fault) :
    fault = .grammar ∨ (∃ value, fault = .value value ∧ Misspells text value) ∨
      fault = .tooDeep ∧ IsDeep text := by
  rw [Document.ofText?] at h
  rcases tree : Node.ofText? text with stop | root
  · rw [tree] at h
    obtain rfl := Except.error.inj h
    rcases Node.ofText?_error tree with grammar | ⟨value, spelled, far⟩ | ⟨deep, many⟩
    · exact .inl grammar
    · exact .inr (.inl ⟨value, spelled, .escape far⟩)
    · exact .inr (.inr ⟨deep, .begun many⟩)
  · rw [tree] at h
    cases root with
    | none => cases h
    | some root =>
      have settled := root.document_settles
      have refused : root.document = .error fault := h
      rw [refused] at settled
      cases settled with
      | grammar => exact .inl rfl
      | tooDeep many => exact .inr (.inr ⟨rfl, .merged tree many⟩)
      | misspelled there misspelled => exact .inr (.inl ⟨_, rfl, .scalar tree there misspelled⟩)

end SessionKeeper.Yaml
