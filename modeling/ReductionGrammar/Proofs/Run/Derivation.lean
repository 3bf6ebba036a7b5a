import ReductionGrammar.Grammar.Action
import ReductionGrammar.Proofs.Buffer.Classification
import ReductionGrammar.Proofs.Run.Steps

/-!
# Derivations

A derivation tree says how an entry came about: a character is a leaf, and a reduced entry stands
over the entries that its rule reduced. Every entry of a buffer that a run reaches has such a tree,
and the leaves of all trees together are the input.
-/

namespace ReductionGrammar

/-- How an entry came about. -/
inductive ParseTree where
  | leaf (c : Char)
  /-- A reduction by `rule` to `value`, over the trees of the entries that it replaced. -/
  | node (rule : Rule) (value : Value) (children : List ParseTree)

namespace ParseTree

def root : ParseTree → Entry
  | leaf c => .char c
  | node rule value _ => .reduced rule.lhs value

mutual

def leaves : ParseTree → List Char
  | leaf c => [c]
  | node _ _ children => leavesOfAll children

def leavesOfAll : List ParseTree → List Char
  | [] => []
  | t :: ts => leaves t ++ leavesOfAll ts

end

theorem leavesOfAll_eq (ts : List ParseTree) : leavesOfAll ts = ts.flatMap leaves := by
  induction ts with
  | nil => rfl
  | cons t ts ih => simp only [leavesOfAll, ih, List.flatMap_cons]

/-- Every node is a reduction by a rule of the grammar: the entries below it split among the tokens
of the rule, and its value is what the action makes of the captures. -/
inductive Derives (g : Grammar) : ParseTree → Prop where
  | leaf (c : Char) : Derives g (.leaf c)
  | node {rule : Rule} {value : Value} {children : List ParseTree} {captures : List Value}
      (hrule : rule ∈ g.rules) (hchildren : ∀ t ∈ children, Derives g t)
      (hsplits : Splits rule.pattern.tokens (children.map root) captures)
      (hvalue : rule.action captures = .ok value) : Derives g (.node rule value children)

end ParseTree

/-- The trees account for the entries of the buffer, one for each in order, and together they
derive them from the input. -/
structure Forest (g : Grammar) (input : String) (b : Buffer) (trees : List ParseTree) : Prop where
  roots : trees.map ParseTree.root = b.entries
  derives : ∀ t ∈ trees, t.Derives g
  leaves : trees.flatMap ParseTree.leaves = input.toList

theorem Forest.ofInput (g : Grammar) (input : String) :
    Forest g input (.ofInput input) (input.toList.map .leaf) := by
  refine ⟨?_, ?_, ?_⟩
  · simp [Buffer.ofInput, ParseTree.root]
  · intro t ht
    obtain ⟨c, -, rfl⟩ := List.mem_map.1 ht
    exact .leaf c
  · simp [List.flatMap_map, ParseTree.leaves]

/-- The trees of the reduced entries become the children of one new tree in their place. -/
theorem Forest.reduce {g : Grammar} {input : String} {b : Buffer} {trees : List ParseTree}
    (hf : Forest g input b trees) {rule : Rule} (hrule : rule ∈ g.rules) {m : Match}
    (hm : m.IsSplit rule.pattern.tokens b.entries) {value : Value}
    (hvalue : rule.action m.captures = .ok value) :
    ∃ trees', Forest g input (b.splice m.span (.reduced rule.lhs value)) trees' := by
  obtain ⟨before, found, after, hentries, -, hsplits, hsplice⟩ := hm.exists_splice
  have hroots := hf.roots
  rw [hentries] at hroots
  obtain ⟨front, last, rfl, hfront, hlast⟩ := List.map_eq_append_iff.1 hroots
  obtain ⟨first, children, rfl, hfirst, hchildren⟩ := List.map_eq_append_iff.1 hfront
  have hnode : (ParseTree.node rule value children).Derives g := by
    refine .node hrule ?_ (hchildren ▸ hsplits) hvalue
    intro t ht
    exact hf.derives t (List.mem_append_left _ (List.mem_append_right _ ht))
  refine ⟨first ++ .node rule value children :: last, ?_, ?_, ?_⟩
  · simp [hsplice, hfirst, hlast, ParseTree.root]
  · intro t ht
    simp only [List.mem_append, List.mem_cons] at ht
    rcases ht with ht | rfl | ht
    · exact hf.derives t (List.mem_append_left _ (List.mem_append_left _ ht))
    · exact hnode
    · exact hf.derives t (List.mem_append_right _ ht)
  · rw [← hf.leaves]
    simp [ParseTree.leaves, ParseTree.leavesOfAll_eq]

theorem ParseTree.leaves_of_root_eq_char {t : ParseTree} {c : Char} (h : t.root = .char c) :
    t.leaves = [c] := by
  cases t with
  | leaf d =>
    cases h
    rfl
  | node rule value children => cases h

theorem ParseTree.flatMap_leaves_of_roots {trees : List ParseTree} {cs : List Char}
    (h : trees.map root = cs.map .char) : trees.flatMap leaves = cs := by
  induction cs generalizing trees with
  | nil =>
    rw [List.map_nil, List.map_eq_nil_iff] at h
    rw [h, List.flatMap_nil]
  | cons c cs ih =>
    obtain ⟨t, rest, rfl, ht, hrest⟩ := List.map_eq_cons_iff.1 h
    rw [List.flatMap_cons, leaves_of_root_eq_char ht, ih hrest, List.singleton_append]

/-- Characters that stand in a row in a buffer have stood in a row in the input. -/
theorem Forest.infix_of_chars {g : Grammar} {input : String} {b : Buffer} {trees : List ParseTree}
    (hf : Forest g input b trees) {cs : List Char} (h : cs.map .char <:+: b.entries) :
    cs <:+: input.toList := by
  obtain ⟨left, right, hentries⟩ := h
  have hroots := hf.roots
  rw [← hentries] at hroots
  obtain ⟨front, last, rfl, hfront, -⟩ := List.map_eq_append_iff.1 hroots
  obtain ⟨first, row, rfl, -, hrow⟩ := List.map_eq_append_iff.1 hfront
  have hleaves := ParseTree.flatMap_leaves_of_roots hrow
  refine ⟨first.flatMap ParseTree.leaves, last.flatMap ParseTree.leaves, ?_⟩
  rw [← hf.leaves, List.flatMap_append, List.flatMap_append, hleaves]

theorem Forest.exists_tree {g : Grammar} {input : String} {b : Buffer} {trees : List ParseTree}
    (hf : Forest g input b trees) {e : Entry} (hb : b.entries = [e]) :
    ∃ t : ParseTree, t.Derives g ∧ t.root = e ∧ t.leaves = input.toList := by
  have hroots := hf.roots
  rw [hb] at hroots
  obtain ⟨t, rfl, hroot⟩ : ∃ t, trees = [t] ∧ t.root = e := by simpa using hroots
  refine ⟨t, hf.derives t (List.mem_singleton.2 rfl), hroot, ?_⟩
  simpa using hf.leaves

/-- Some forest derives the buffer from the input. -/
def Derivable (g : Grammar) (input : String) (b : Buffer) : Prop :=
  ∃ trees, Forest g input b trees

theorem derivable_kept {g : Grammar} {rules : List Rule} (hrules : ∀ rule ∈ rules, rule ∈ g.rules)
    (input : String) : KeptBySteps rules (Derivable g input) := by
  intro b redex settings inputSize pass r hselect hreduction hb
  obtain ⟨hmem, hsplit⟩ := Redex.of_select? hselect
  obtain ⟨value, hvalue, rfl⟩ := Redex.of_reduction hreduction
  obtain ⟨trees, hforest⟩ := hb
  exact hforest.reduce (hrules _ hmem) hsplit hvalue

theorem Parser.derivable_of_run {σ : Type} {p : Parser} {input : String} {tell : σ → Notice → σ}
    {s : σ} {b : Buffer} (h : (p.run input tell s).2 = .ok b) : Derivable p.grammar input b := by
  have hrules : ∀ rule ∈ p.rules, rule ∈ p.grammar.rules := by
    intro rule hrule
    exact (Priority.mem_arrange p.settings.priority).1 hrule
  exact runPasses_keeps (derivable_kept hrules input) h ⟨_, Forest.ofInput p.grammar input⟩

theorem Parser.exists_run_of_parse {p : Parser} {input : String} {outcome : Outcome}
    (h : p.parse input = .ok outcome) :
    ∃ b, (p.run input (fun () _ => ()) ()).2 = .ok b ∧ .ofBuffer p.grammar.start b = outcome := by
  unfold Parser.parse Parser.observe at h
  cases hrun : p.run input (fun () _ => ()) () with
  | mk s result =>
    cases result with
    | error fault => simp [hrun] at h
    | ok b =>
      simp only [hrun, Except.ok.injEq] at h
      exact ⟨b, rfl, h⟩

/-- Whatever a run returns is derived from the input by the rules of the grammar, every value being
computed by the actions along the derivation; an accepted value is that of a derivation of the
whole input from the start symbol. -/
theorem Parser.reduce_sound (p : Parser) (input : String) :
    (∀ b, p.reduce input = .ok b → ∃ trees, Forest p.grammar input b trees) ∧
      ∀ value, p.parse input = .ok (.accepted value) →
        ∃ t : ParseTree, t.Derives p.grammar ∧ t.root = .reduced p.grammar.start value ∧
          t.leaves = input.toList := by
  refine ⟨fun b h => derivable_of_run h, ?_⟩
  intro value h
  obtain ⟨b, hrun, houtcome⟩ := exists_run_of_parse h
  obtain ⟨trees, hforest⟩ := derivable_of_run hrun
  exact hforest.exists_tree (Outcome.entries_of_accepted houtcome)

def sumParser : Parser where
  grammar := ⟨"Sum", [
    ⟨"Sum", ⟨"(Sum) '+' (Sum)",
      [⟨.name "Sum", .once, true⟩, ⟨.char '+', .once, false⟩, ⟨.name "Sum", .once, true⟩]⟩,
      Action.sum⟩,
    ⟨"Sum", ⟨"(Num)", [⟨.name "Num", .once, true⟩]⟩, Action.first⟩,
    ⟨"Num", ⟨"('[0-9]'+)", [⟨.charSet (.ofRange '0' '9'), .oneOrMore, true⟩]⟩, Action.number⟩]⟩
  settings := { maxReductions := 10 }
  valid := by decide

theorem Parser.reduce_sound_sum :
    sumParser.reduce "12+3" = .ok ⟨[.reduced "Sum" (.int 15)]⟩ ∧
      sumParser.parse "12+3" = .ok (.accepted (.int 15)) ∧
      (∃ trees, Forest sumParser.grammar "12+3" ⟨[.reduced "Sum" (.int 15)]⟩ trees) ∧
      ∃ t : ParseTree, t.Derives sumParser.grammar ∧ t.root = .reduced "Sum" (.int 15) ∧
        t.leaves = "12+3".toList := by
  have hreduce : sumParser.reduce "12+3" = .ok ⟨[.reduced "Sum" (.int 15)]⟩ := by decide +kernel
  have hparse : sumParser.parse "12+3" = .ok (.accepted (.int 15)) := by decide +kernel
  exact ⟨hreduce, hparse, (Parser.reduce_sound sumParser "12+3").1 _ hreduce,
    (Parser.reduce_sound sumParser "12+3").2 _ hparse⟩

end ReductionGrammar
