import ReductionGrammar.Proofs.Run.Derivation
import ReductionGrammar.Proofs.Run.History
import ReductionGrammar.Proofs.Run.Selection

/-!
# Erasing values

Which rule is reduced where depends on the characters and the symbols in a buffer, never on the
values that its entries carry. If all values are erased, a run becomes the beginning of the run of a
parser with the same rules and no actions; so two parsers that differ in their actions only make the
same reductions, as long as no action fails.
-/

namespace ReductionGrammar

def Entry.erase : Entry → Entry
  | char c => char c
  | reduced symbol _ => reduced symbol .nil

def Buffer.erase (b : Buffer) : Buffer :=
  ⟨b.entries.map Entry.erase⟩

/-- The rule with an action that never fails and makes nothing of the captures. -/
def Rule.skeleton (rule : Rule) : Rule :=
  { rule with action := fun _ => .ok .nil }

/-- In which pass a reduction is made, by which rule and of which entries. -/
def Reduction.site (r : Reduction) : Nat × Nat × Span :=
  (r.pass, r.rule, r.span)

/-! ### Matching -/

@[simp]
theorem Atom.accepts_erase (a : Atom) (e : Entry) : a.accepts e.erase = a.accepts e := by
  cases e <;> rfl

theorem Token.block_erase (t : Token) (es : List Entry) :
    t.block (es.map Entry.erase) = (t.block es).map Entry.erase := by
  have hcomp : t.atom.accepts ∘ Entry.erase = t.atom.accepts := funext t.atom.accepts_erase
  cases es with
  | nil => rfl
  | cons e rest =>
    simp only [List.map_cons, Token.block, Atom.accepts_erase, List.takeWhile_map, hcomp]
    split
    · split <;> rfl
    · rfl

theorem Token.block?_erase (t : Token) (es : List Entry) :
    t.block? (es.map Entry.erase) = (t.block? es).map (List.map Entry.erase) := by
  simp only [Token.block?, Token.block_erase, List.length_map]
  split <;> rfl

theorem blocks?_erase (tokens : List Token) (es : List Entry) :
    blocks? tokens (es.map Entry.erase) =
      (blocks? tokens es).map (List.map (List.map Entry.erase)) := by
  induction tokens generalizing es with
  | nil => rfl
  | cons t ts ih =>
    unfold blocks?
    rw [Token.block?_erase]
    cases t.block? es with
    | none => rfl
    | some taken =>
      simp only [Option.map_some, List.length_map, ← List.map_drop, ih, Option.map_map]
      rfl

theorem Match.here?_erase (tokens : List Token) (start : Nat) (es : List Entry) :
    (here? tokens start (es.map Entry.erase)).map Match.span =
      (here? tokens start es).map Match.span := by
  unfold here?
  rw [blocks?_erase]
  cases blocks? tokens es with
  | none => rfl
  | some blocks => simp [List.length_flatten, Function.comp_def]

theorem Match.findFrom?_erase (tokens : List Token) (start : Nat) (es : List Entry) :
    (findFrom? tokens start (es.map Entry.erase)).map Match.span =
      (findFrom? tokens start es).map Match.span := by
  induction es generalizing start with
  | nil => rfl
  | cons e rest ih =>
    have hhere := here?_erase tokens start (e :: rest)
    rw [List.map_cons] at hhere ⊢
    unfold findFrom?
    cases h : here? tokens start (e :: rest) with
    | none =>
      rw [h, Option.map_none, Option.map_eq_none_iff] at hhere
      simp only [hhere, ih]
    | some m =>
      rw [h, Option.map_some, Option.map_eq_some_iff] at hhere
      obtain ⟨m', hm', hspan⟩ := hhere
      simp only [hm', Option.map_some, hspan]

/-! ### Selection -/

theorem Redex.select?_erase (rules : List Rule) (b : Buffer) :
    (select? (rules.map Rule.skeleton) b.erase).map (fun redex => (redex.rule, redex.found.span)) =
      (select? rules b).map fun redex => (redex.rule.skeleton, redex.found.span) := by
  induction rules with
  | nil => rfl
  | cons rule rest ih =>
    have hfind := Match.findFrom?_erase rule.pattern.tokens 0 b.entries
    rw [List.map_cons]
    unfold select? Match.find?
    cases h : Match.findFrom? rule.pattern.tokens 0 b.entries with
    | none =>
      rw [h, Option.map_none, Option.map_eq_none_iff] at hfind
      simp only [Rule.skeleton, Buffer.erase, hfind]
      exact ih
    | some m =>
      rw [h, Option.map_some, Option.map_eq_some_iff] at hfind
      obtain ⟨m', hm', hspan⟩ := hfind
      simp only [Rule.skeleton, Buffer.erase, hm', Option.map_some, hspan]

theorem Redex.select?_erase_eq_none {rules : List Rule} {b : Buffer}
    (h : select? rules b = none) : select? (rules.map Rule.skeleton) b.erase = none := by
  have herase := select?_erase rules b
  rwa [h, Option.map_none, Option.map_eq_none_iff] at herase

theorem Redex.select?_erase_eq_some {rules : List Rule} {b : Buffer} {redex : Redex}
    (h : select? rules b = some redex) :
    ∃ captures, select? (rules.map Rule.skeleton) b.erase =
      some ⟨redex.rule.skeleton, ⟨redex.found.span, captures⟩⟩ := by
  have herase := select?_erase rules b
  rw [h, Option.map_some, Option.map_eq_some_iff] at herase
  obtain ⟨⟨rule, ⟨span, captures⟩⟩, hselect, heq⟩ := herase
  obtain ⟨rfl, rfl⟩ := Prod.mk.inj heq
  exact ⟨captures, hselect⟩

/-! ### Runs -/

theorem Buffer.size_erase (b : Buffer) : b.erase.size = b.size :=
  List.length_map _

theorem Buffer.erase_splice (b : Buffer) (span : Span) (symbol : String) (value : Value) :
    (b.splice span (.reduced symbol value)).erase = b.erase.splice span (.reduced symbol .nil) := by
  simp [Buffer.erase, Buffer.splice, Entry.erase]

theorem Redex.fits_erase (redex : Redex) (settings : Settings) (inputSize : Nat) (b : Buffer)
    (captures : List Value) :
    (Redex.mk redex.rule.skeleton ⟨redex.found.span, captures⟩).Fits settings inputSize b.erase ↔
      redex.Fits settings inputSize b := by
  unfold Redex.Fits
  rw [b.size_erase]

section RunFrom

variable {rules : List Rule} {settings : Settings} {inputSize left pass : Nat} {b : Buffer}
  {log : List Reduction} {result : Except Fault Buffer}

/-- The run without values goes as far as the run with values, and further only if an action
fails. -/
theorem RunFrom.exists_skeleton (h : RunFrom rules settings inputSize left pass b log result) :
    ∃ log' result',
      RunFrom (rules.map Rule.skeleton) settings inputSize left pass b.erase log' result' ∧
        log.map Reduction.site <+: log'.map Reduction.site ∧
        ((∀ rule message, result ≠ .error (.actionFailed rule message)) →
          log.map Reduction.site = log'.map Reduction.site ∧
            result.map Buffer.erase = result') := by
  induction h with
  | done hselect =>
    exact ⟨[], _, .done (Redex.select?_erase_eq_none hselect), List.nil_prefix,
      fun _ => ⟨rfl, rfl⟩⟩
  | exhausted hselect =>
    obtain ⟨captures, herase⟩ := Redex.select?_erase_eq_some hselect
    exact ⟨[], _, .exhausted herase, List.nil_prefix, fun _ => ⟨rfl, rfl⟩⟩
  | @refused left pass b redex fault hselect hreduction =>
    obtain ⟨captures, herase⟩ := Redex.select?_erase_eq_some hselect
    rcases Redex.reduction_eq_error_iff.1 hreduction with ⟨hfull, rfl⟩ | ⟨-, cause, -, rfl⟩
    · have hfull' := mt (redex.fits_erase settings inputSize b captures).1 hfull
      exact ⟨[], _, .refused herase (Redex.reduction_of_not_fits hfull' pass), List.nil_prefix,
        fun _ => ⟨rfl, rfl⟩⟩
    · -- without values the action does not fail, and the run goes on
      obtain ⟨log', result', hrun⟩ := exists_runFrom (left + 1) pass b.erase
      exact ⟨log', result', hrun, List.nil_prefix, fun hne => absurd rfl (hne _ _)⟩
  | @step left pass b redex r log result hselect hreduction rest ih =>
    obtain ⟨captures, herase⟩ := Redex.select?_erase_eq_some hselect
    have hfits := (redex.fits_erase settings inputSize b captures).2
      (Redex.fits_of_reduction hreduction)
    obtain ⟨value, -, rfl⟩ := Redex.of_reduction hreduction
    obtain ⟨log', result', hrun, hprefix, hend⟩ := ih
    have hstep := RunFrom.step herase (Redex.reduction_eq_ok hfits rfl pass)
      (Buffer.erase_splice b redex.found.span redex.rule.lhs value ▸ hrun)
    refine ⟨_, result', hstep, ?_, fun hne => ?_⟩
    · exact List.cons_prefix_cons.2 ⟨rfl, hprefix⟩
    · obtain ⟨hlog, hresult⟩ := hend hne
      simp only [List.map_cons, hlog, hresult, and_true]
      rfl

end RunFrom

/-! ### Outcomes -/

theorem Outcome.unmatched_erase (start : String) (es : List Entry) :
    unmatched start (es.map Entry.erase) = unmatched start es := by
  have hreduced : ∀ e : Entry, e.erase.isReducedTo start = e.isReducedTo start := by
    intro e
    cases e <;> rfl
  have hcomp : (fun e : Entry => e.isReducedTo start) ∘ Entry.erase = (·.isReducedTo start) :=
    funext hreduced
  have hcomp' : (fun e : Entry => !e.isReducedTo start) ∘ Entry.erase =
      (!·.isReducedTo start) := funext fun e => congrArg not (hreduced e)
  unfold unmatched
  rw [List.dropWhile_map, List.takeWhile_map, hcomp]
  cases es.dropWhile (·.isReducedTo start) with
  | nil => simp
  | cons e rest => simp [List.takeWhile_map, hcomp']

theorem Outcome.ofBuffer_erase (start : String) (b : Buffer) :
    (∃ value, ofBuffer start b = .accepted value ∧ ofBuffer start b.erase = .accepted .nil) ∨
      ofBuffer start b = .stuck b (unmatched start b.entries) ∧
        ofBuffer start b.erase = .stuck b.erase (unmatched start b.entries) := by
  have hunmatched := unmatched_erase start b.entries
  obtain ⟨entries⟩ := b
  match entries with
  | [] => exact .inr ⟨rfl, rfl⟩
  | [.char c] => exact .inr ⟨rfl, congrArg (stuck _) hunmatched⟩
  | [.reduced symbol value] =>
    by_cases hstart : symbol = start
    · refine .inl ⟨value, ?_, ?_⟩ <;>
        simp [ofBuffer, Buffer.erase, Entry.erase, hstart]
    · refine .inr ⟨?_, ?_⟩
      · simp [ofBuffer, hstart]
      · simpa [ofBuffer, Buffer.erase, Entry.erase, hstart] using hunmatched
  | e :: e' :: rest => cases e <;> exact .inr ⟨rfl, congrArg (stuck _) hunmatched⟩

theorem Outcome.alike_of_erase (start : String) {b b' : Buffer} (h : b.erase = b'.erase) :
    (∃ value value', ofBuffer start b = .accepted value ∧ ofBuffer start b' = .accepted value') ∨
      ∃ span, ofBuffer start b = .stuck b span ∧ ofBuffer start b' = .stuck b' span := by
  rcases ofBuffer_erase start b with ⟨value, hb, herase⟩ | ⟨hb, herase⟩
  · rcases ofBuffer_erase start b' with ⟨value', hb', -⟩ | ⟨-, herase'⟩
    · exact .inl ⟨value, value', hb, hb'⟩
    · rw [h, herase'] at herase
      cases herase
  · rcases ofBuffer_erase start b' with ⟨value', -, herase'⟩ | ⟨hb', herase'⟩
    · rw [h, herase'] at herase
      cases herase
    · rw [h, herase'] at herase
      exact .inr ⟨_, hb, (stuck.inj herase).2 ▸ hb'⟩

/-! ### Two parsers -/

/-- Two grammars that differ in nothing but the actions of their rules. -/
structure Grammar.Alike (g g' : Grammar) : Prop where
  start : g.start = g'.start
  declarations : g.declarations.map (fun d => (d.lhs, d.pattern)) =
    g'.declarations.map (fun d => (d.lhs, d.pattern))

theorem Grammar.map_skeleton_rules (g : Grammar) :
    g.rules.map Rule.skeleton =
      (g.declarations.map fun d => (d.lhs, d.pattern)).mapIdx fun i d =>
        ⟨⟨d.1, d.2, fun _ => .ok .nil⟩, i + 1⟩ := by
  refine List.ext_getElem (by simp [Grammar.rules]) fun i hi hi' => ?_
  simp [Grammar.rules, Rule.skeleton]

theorem Priority.map_arrange {α β : Type} (priority : Priority) (f : α → β) (l : List α) :
    (priority.arrange l).map f = priority.arrange (l.map f) := by
  cases priority with
  | lastFirst => exact List.map_reverse
  | declared => rfl

theorem Parser.map_skeleton_rules_eq {p q : Parser} (h : p.grammar.Alike q.grammar)
    (hsettings : p.settings = q.settings) :
    p.rules.map Rule.skeleton = q.rules.map Rule.skeleton := by
  unfold Parser.rules
  rw [Priority.map_arrange, Priority.map_arrange, Grammar.map_skeleton_rules,
    Grammar.map_skeleton_rules, h.declarations, hsettings]

/-- Values do not influence which reductions are made: of two parsers that differ in their actions
only, one makes the reductions of the other as far as its actions do not fail; and if no action
fails, both end alike. -/
theorem Parser.noninterference (p q : Parser) (hgrammar : p.grammar.Alike q.grammar)
    (hsettings : p.settings = q.settings) (input : String) :
    ((p.reductions input).map Reduction.site <+: (q.reductions input).map Reduction.site ∨
      (q.reductions input).map Reduction.site <+: (p.reductions input).map Reduction.site) ∧
    ((∀ rule message, p.parse input ≠ .error (.actionFailed rule message)) →
      (∀ rule message, q.parse input ≠ .error (.actionFailed rule message)) →
      (p.reductions input).map Reduction.site = (q.reductions input).map Reduction.site ∧
      ((∃ ceiling, p.reduce input = .error (.limitExceeded ceiling) ∧
          q.reduce input = .error (.limitExceeded ceiling) ∧
          p.parse input = .error (.limitExceeded ceiling) ∧
          q.parse input = .error (.limitExceeded ceiling)) ∨
        ∃ b b', p.reduce input = .ok b ∧ q.reduce input = .ok b' ∧ b.erase = b'.erase ∧
          ((∃ value value', p.parse input = .ok (.accepted value) ∧
              q.parse input = .ok (.accepted value')) ∨
            ∃ span, p.parse input = .ok (.stuck b span) ∧
              q.parse input = .ok (.stuck b' span)))) := by
  obtain ⟨log, result, hp⟩ := p.exists_runs input
  obtain ⟨log', result', hq⟩ := q.exists_runs input
  obtain ⟨sites, ending, hrun, hprefix, hend⟩ := hp.exists_skeleton
  obtain ⟨sites', ending', hrun', hprefix', hend'⟩ := hq.exists_skeleton
  rw [← map_skeleton_rules_eq hgrammar hsettings, ← hsettings] at hrun'
  obtain ⟨rfl, rfl⟩ := hrun.unique hrun'
  rw [hp.reductions_eq, hq.reductions_eq, hp.reduce_eq, hq.reduce_eq, hp.parse_eq, hq.parse_eq,
    ← hgrammar.start]
  refine ⟨List.prefix_or_prefix_of_prefix hprefix hprefix', fun hnot hnot' => ?_⟩
  have hne : ∀ rule message, result ≠ .error (.actionFailed rule message) := by
    rintro rule message rfl
    exact hnot rule message rfl
  have hne' : ∀ rule message, result' ≠ .error (.actionFailed rule message) := by
    rintro rule message rfl
    exact hnot' rule message rfl
  obtain ⟨hsites, hresult⟩ := hend hne
  obtain ⟨hsites', hresult'⟩ := hend' hne'
  refine ⟨hsites.trans hsites'.symm, ?_⟩
  have hresults : result.map Buffer.erase = result'.map Buffer.erase := hresult.trans hresult'.symm
  cases result with
  | error fault =>
    cases result' with
    | ok b' => cases hresults
    | error fault' =>
      cases hresults
      rcases hp.fault_cases with rfl | rfl | ⟨rule, message, rfl⟩
      · exact .inl ⟨_, rfl, rfl, rfl, rfl⟩
      · exact .inl ⟨_, rfl, rfl, rfl, rfl⟩
      · exact absurd rfl (hne rule message)
  | ok b =>
    cases result' with
    | error fault' => cases hresults
    | ok b' =>
      have herase : b.erase = b'.erase := Except.ok.inj hresults
      refine .inr ⟨b, b', rfl, rfl, herase, ?_⟩
      rcases Outcome.alike_of_erase p.grammar.start herase with
        ⟨value, value', hb, hb'⟩ | ⟨span, hb, hb'⟩
      · exact .inl ⟨value, value', congrArg Except.ok hb, congrArg Except.ok hb'⟩
      · exact .inr ⟨span, congrArg Except.ok hb, congrArg Except.ok hb'⟩

/-- The parser of sums, with actions that keep everything instead of adding. -/
def sumListParser : Parser where
  grammar := { sumParser.grammar with
    declarations := sumParser.grammar.declarations.map ({ · with action := Action.list }) }
  settings := sumParser.settings
  valid := by decide

theorem Parser.noninterference_sum :
    sumParser.grammar.Alike sumListParser.grammar ∧ sumParser.settings = sumListParser.settings ∧
      (∀ rule message, sumParser.parse "12+3" ≠ .error (.actionFailed rule message)) ∧
      (∀ rule message, sumListParser.parse "12+3" ≠ .error (.actionFailed rule message)) ∧
      sumListParser.parse "12+3" = .ok (.accepted (.vec [.vec [.vec [.string "12"]],
        .vec [.vec [.string "3"]]])) ∧
      (sumParser.reductions "12+3").map Reduction.site =
        (sumListParser.reductions "12+3").map Reduction.site := by
  have halike : sumParser.grammar.Alike sumListParser.grammar := ⟨rfl, rfl⟩
  have hsum : sumParser.parse "12+3" = .ok (.accepted (.int 15)) := by decide +kernel
  have hlist : sumListParser.parse "12+3" = .ok (.accepted (.vec [.vec [.vec [.string "12"]],
      .vec [.vec [.string "3"]]])) := by decide +kernel
  have hnot : ∀ rule message, sumParser.parse "12+3" ≠ .error (.actionFailed rule message) := by
    simp [hsum]
  have hnot' : ∀ rule message,
      sumListParser.parse "12+3" ≠ .error (.actionFailed rule message) := by
    simp [hlist]
  exact ⟨halike, rfl, hnot, hnot', hlist,
    ((Parser.noninterference sumParser sumListParser halike rfl "12+3").2 hnot hnot').1⟩

end ReductionGrammar
