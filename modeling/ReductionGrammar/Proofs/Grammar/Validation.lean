import ReductionGrammar.Proofs.Grammar.Registry
import ReductionGrammar.Proofs.Pattern.RoundTrip

/-!
# Grammars whose symbols fit together

The symbols of a grammar fit together if some rule reduces to the start symbol and patterns refer to
exactly the symbols that rules reduce to. This is said of the tokens of the patterns and of the
left-hand sides alone, and so it does not matter in which order the rules are declared. Validation
decides it; the symbol that it blames is the first one that does not fit, where symbols to which no
rule reduces come before symbols to which no pattern refers.
-/

namespace ReductionGrammar

def Pattern.RefersTo (p : Pattern) (s : String) : Prop :=
  ∃ t ∈ p.tokens, t.atom = .name s

namespace Grammar

/-- Some rule reduces to the symbol. -/
def Defines (g : Grammar) (s : String) : Prop :=
  ∃ d ∈ g.declarations, d.lhs = s

def RefersTo (g : Grammar) (s : String) : Prop :=
  ∃ d ∈ g.declarations, d.pattern.RefersTo s

@[mk_iff]
structure Fits (g : Grammar) : Prop where
  start : g.Defines g.start
  refersTo_iff : ∀ s, g.RefersTo s ↔ g.Defines s

/-- The fault that a grammar has. Of several, it is the one that is named first here; and of several
symbols, the one that stands first. -/
inductive Blames (g : Grammar) : Fault → Prop where
  | start (h : ¬g.Defines g.start) : g.Blames (.startUndefined g.start)
  /-- All symbols before this one, in earlier declarations and in the same one, are defined. -/
  | undefined {before after : List Declaration} {d : Declaration} {left right : List Token}
      {t : Token} {s : String} (hstart : g.Defines g.start)
      (hdeclarations : g.declarations = before ++ d :: after)
      (htokens : d.pattern.tokens = left ++ t :: right) (hatom : t.atom = .name s)
      (h : ¬g.Defines s)
      (hbefore : ∀ other ∈ before, ∀ s', other.pattern.RefersTo s' → g.Defines s')
      (hleft : ∀ u ∈ left, ∀ s', u.atom = .name s' → g.Defines s') :
      g.Blames (.symbolUndefined s)
  | unused {before after : List Declaration} {d : Declaration} (hstart : g.Defines g.start)
      (hdefined : ∀ s, g.RefersTo s → g.Defines s)
      (hdeclarations : g.declarations = before ++ d :: after) (h : ¬g.RefersTo d.lhs)
      (hbefore : ∀ other ∈ before, g.RefersTo other.lhs) : g.Blames (.symbolUnused d.lhs)

/-! ### The symbols that validation looks for -/

theorem isDefined_iff {g : Grammar} {s : String} : g.isDefined s = true ↔ g.Defines s := by
  simp [isDefined, Defines]

theorem not_isDefined_iff {g : Grammar} {s : String} :
    (!g.isDefined s) = true ↔ ¬g.Defines s := by
  rw [← isDefined_iff, Bool.not_eq_true', Bool.not_eq_true]

end Grammar

theorem Atom.symbol?_eq_some_iff {a : Atom} {s : String} : a.symbol? = some s ↔ a = .name s := by
  cases a <;> simp [Atom.symbol?]

theorem Pattern.mem_symbols {p : Pattern} {s : String} : s ∈ p.symbols ↔ p.RefersTo s := by
  simp only [symbols, RefersTo, List.mem_filterMap, Atom.symbol?_eq_some_iff]

/-- The first symbol of a pattern with a property, and the token at which it stands. -/
theorem Pattern.find?_symbols_eq_some_iff {p : Pattern} {q : String → Bool} {s : String} :
    p.symbols.find? q = some s ↔
      q s = true ∧ ∃ left t right, p.tokens = left ++ t :: right ∧ t.atom = .name s ∧
        ∀ u ∈ left, ∀ s', u.atom = .name s' → q s' = false := by
  have hany : ∀ t : Token, Option.any q t.atom.symbol? = true ↔
      ∃ s', t.atom = .name s' ∧ q s' = true := by
    intro t
    simp only [Option.any_eq_true_iff_get, ← Atom.symbol?_eq_some_iff]
    cases t.atom.symbol? <;> simp
  unfold symbols
  rw [List.find?_filterMap, Option.bind_eq_some_iff]
  simp only [List.find?_eq_some_iff_append, hany, Atom.symbol?_eq_some_iff]
  constructor
  · intro h
    obtain ⟨t, ⟨⟨s', hs', hq⟩, left, right, htokens, hleft⟩, hatom⟩ := h
    rw [hatom, Atom.name.injEq] at hs'
    subst hs'
    refine ⟨hq, left, t, right, htokens, hatom, fun u hu s' hs' => ?_⟩
    by_contra hq'
    simpa [hs', Atom.symbol?, hq'] using hleft u hu
  · intro h
    obtain ⟨hq, left, t, right, htokens, hatom, hleft⟩ := h
    refine ⟨t, ⟨⟨s, hatom, hq⟩, left, right, htokens, fun u hu => ?_⟩, hatom⟩
    by_contra hu'
    rw [Bool.not_eq_true', Bool.not_eq_false, hany] at hu'
    obtain ⟨s', hs', hq'⟩ := hu'
    rw [hleft u hu s' hs'] at hq'
    cases hq'

namespace Grammar

theorem mem_references {g : Grammar} {s : String} : s ∈ g.references ↔ g.RefersTo s := by
  simp only [references, RefersTo, List.mem_flatMap, Pattern.mem_symbols]

theorem find?_references_eq_none_iff {g : Grammar} :
    g.references.find? (!g.isDefined ·) = none ↔ ∀ s, g.RefersTo s → g.Defines s := by
  simp only [List.find?_eq_none, mem_references, not_isDefined_iff, not_not]

theorem find?_references_eq_some_iff {g : Grammar} {s : String} :
    g.references.find? (!g.isDefined ·) = some s ↔
      ¬g.Defines s ∧ ∃ before d after left t right,
        g.declarations = before ++ d :: after ∧ d.pattern.tokens = left ++ t :: right ∧
          t.atom = .name s ∧
          (∀ other ∈ before, ∀ s', other.pattern.RefersTo s' → g.Defines s') ∧
          ∀ u ∈ left, ∀ s', u.atom = .name s' → g.Defines s' := by
  have hfalse : ∀ s', (!g.isDefined s') = false ↔ g.Defines s' := by
    intro s'
    rw [Bool.not_eq_false', isDefined_iff]
  have hnone : ∀ d : Declaration, d.pattern.symbols.find? (!g.isDefined ·) = none ↔
      ∀ s', d.pattern.RefersTo s' → g.Defines s' := by
    intro d
    simp only [List.find?_eq_none, Pattern.mem_symbols, not_isDefined_iff, not_not]
  unfold references
  rw [List.find?_flatMap, List.findSome?_eq_some_iff]
  simp only [Pattern.find?_symbols_eq_some_iff, not_isDefined_iff, hfalse, hnone]
  constructor
  · intro h
    obtain ⟨before, d, after, hdeclarations, ⟨hs, left, t, right, htokens, hatom, hleft⟩,
      hbefore⟩ := h
    exact ⟨hs, before, d, after, left, t, right, hdeclarations, htokens, hatom, hbefore, hleft⟩
  · intro h
    obtain ⟨hs, before, d, after, left, t, right, hdeclarations, htokens, hatom, hbefore,
      hleft⟩ := h
    exact ⟨before, d, after, hdeclarations, ⟨hs, left, t, right, htokens, hatom, hleft⟩, hbefore⟩

theorem find?_declarations_eq_none_iff {g : Grammar} :
    g.declarations.find? (!g.references.contains ·.lhs) = none ↔
      ∀ s, g.Defines s → g.RefersTo s := by
  simp [List.find?_eq_none, mem_references, Defines]

theorem find?_declarations_eq_some_iff {g : Grammar} {d : Declaration} :
    g.declarations.find? (!g.references.contains ·.lhs) = some d ↔
      ¬g.RefersTo d.lhs ∧ ∃ before after, g.declarations = before ++ d :: after ∧
        ∀ other ∈ before, g.RefersTo other.lhs := by
  simp [List.find?_eq_some_iff_append, mem_references]

/-! ### What validation answers -/

theorem validate_of_fits {g : Grammar} (h : g.Fits) : g.validate = .ok () := by
  have hundefined := find?_references_eq_none_iff.2 fun s => (h.refersTo_iff s).1
  have hunused := find?_declarations_eq_none_iff.2 fun s => (h.refersTo_iff s).2
  have hstart : g.isDefined g.start = true := isDefined_iff.2 h.start
  simp only [validate, hstart, Bool.not_true, Bool.false_eq_true, ite_false, hundefined, hunused]

theorem validate_of_blames {g : Grammar} {fault : Fault} (h : g.Blames fault) :
    g.validate = .error fault := by
  unfold validate
  cases h with
  | start h => rw [if_pos (not_isDefined_iff.2 h)]
  | undefined hstart hdeclarations htokens hatom h hbefore hleft =>
    have hfind := find?_references_eq_some_iff.2
      ⟨h, _, _, _, _, _, _, hdeclarations, htokens, hatom, hbefore, hleft⟩
    rw [if_neg (mt not_isDefined_iff.1 (not_not.2 hstart)), hfind]
  | unused hstart hdefined hdeclarations h hbefore =>
    have hundefined := find?_references_eq_none_iff.2 hdefined
    have hfind := find?_declarations_eq_some_iff.2 ⟨h, _, _, hdeclarations, hbefore⟩
    rw [if_neg (mt not_isDefined_iff.1 (not_not.2 hstart)), hundefined, hfind]

theorem fits_or_blames (g : Grammar) : g.Fits ∨ ∃ fault, g.Blames fault := by
  by_cases hstart : g.Defines g.start
  · cases hundefined : g.references.find? (!g.isDefined ·) with
    | some s =>
      obtain ⟨h, before, d, after, left, t, right, hdeclarations, htokens, hatom, hbefore, hleft⟩ :=
        find?_references_eq_some_iff.1 hundefined
      exact .inr ⟨_, .undefined hstart hdeclarations htokens hatom h hbefore hleft⟩
    | none =>
      have hdefined := find?_references_eq_none_iff.1 hundefined
      cases hunused : g.declarations.find? (!g.references.contains ·.lhs) with
      | some d =>
        obtain ⟨h, before, after, hdeclarations, hbefore⟩ :=
          find?_declarations_eq_some_iff.1 hunused
        exact .inr ⟨_, .unused hstart hdefined hdeclarations h hbefore⟩
      | none =>
        have hused := find?_declarations_eq_none_iff.1 hunused
        exact .inl ⟨hstart, fun s => ⟨hdefined s, hused s⟩⟩
  · exact .inr ⟨_, .start hstart⟩

theorem validate_eq_ok_iff {g : Grammar} : g.validate = .ok () ↔ g.Fits := by
  refine ⟨fun h => ?_, validate_of_fits⟩
  rcases g.fits_or_blames with hfits | ⟨fault, hblames⟩
  · exact hfits
  · cases h.symm.trans (validate_of_blames hblames)

theorem validate_eq_error_iff {g : Grammar} {fault : Fault} :
    g.validate = .error fault ↔ g.Blames fault := by
  refine ⟨fun h => ?_, validate_of_blames⟩
  rcases g.fits_or_blames with hfits | ⟨fault', hblames⟩
  · cases h.symm.trans (validate_of_fits hfits)
  · cases h.symm.trans (validate_of_blames hblames)
    exact hblames

/-! ### Grammars that calls make -/

/-- The grammar that comes of calls which declare rules. -/
def ofCalls (start : String) (cs : List Proposal) : Grammar :=
  (ofStart start).afterCalls cs

theorem ofCalls_eq (start : String) (cs : List Proposal) :
    ofCalls start cs = ⟨start, cs.filterMap Proposal.declaration?⟩ :=
  (ofStart start).afterCalls_eq cs

theorem Fits.perm {g g' : Grammar} (h : g.Fits) (hstart : g.start = g'.start)
    (hperm : g.declarations.Perm g'.declarations) : g'.Fits := by
  have hdefines : ∀ s, g.Defines s ↔ g'.Defines s := fun s =>
    exists_congr fun d => and_congr_left fun _ => hperm.mem_iff
  have hrefersTo : ∀ s, g.RefersTo s ↔ g'.RefersTo s := fun s =>
    exists_congr fun d => and_congr_left fun _ => hperm.mem_iff
  refine ⟨hstart ▸ (hdefines g.start).1 h.start, fun s => ?_⟩
  rw [← hrefersTo, ← hdefines, h.refersTo_iff]

/-- The order of the calls does not matter to whether the symbols fit together. -/
theorem validate_ofCalls_perm {start : String} {cs cs' : List Proposal} (hperm : cs.Perm cs')
    (h : (ofCalls start cs).validate = .ok ()) : (ofCalls start cs').validate = .ok () := by
  rw [validate_eq_ok_iff] at h ⊢
  rw [ofCalls_eq] at h ⊢
  exact h.perm rfl (hperm.filterMap _)

end Grammar

theorem Proposal.wellNamed_declaration {c : Proposal} {d : Declaration}
    (h : c.declaration? = some d) : WellNamed d.pattern.tokens := by
  unfold declaration? at h
  cases hread : readItems c.pattern.toList with
  | error stop => simp [hread] at h
  | ok tokens =>
    simp only [hread, Option.some.injEq] at h
    subst h
    exact (readItems_eq_ok_iff.1 hread).wellNamed

namespace Grammar

/-- A symbol that a pattern refers to was read as a name. -/
theorem name_of_refersTo {start : String} {cs : List Proposal} {s : String}
    (h : (ofCalls start cs).RefersTo s) : Written.Name s.toList := by
  rw [ofCalls_eq] at h
  obtain ⟨d, hd, t, ht, hatom⟩ := h
  obtain ⟨c, -, hc⟩ := List.mem_filterMap.1 hd
  exact Proposal.wellNamed_declaration hc t ht s hatom

/-- For every grammar that calls make, validation succeeds if and only if its symbols fit together,
and otherwise blames the first that does not fit. Whether it succeeds does not depend on the order
of the calls. All left-hand sides of a valid grammar are names. -/
theorem validate_decides (start : String) (cs : List Proposal) :
    ((ofCalls start cs).validate = .ok () ↔
      (ofCalls start cs).Defines start ∧
        ∀ s, (ofCalls start cs).RefersTo s ↔ (ofCalls start cs).Defines s) ∧
    (∀ fault, (ofCalls start cs).validate = .error fault ↔ (ofCalls start cs).Blames fault) ∧
    (∀ cs', cs.Perm cs' →
      ((ofCalls start cs).validate = .ok () ↔ (ofCalls start cs').validate = .ok ())) ∧
    ((ofCalls start cs).validate = .ok () →
      ∀ d ∈ (ofCalls start cs).declarations, Written.Name d.lhs.toList) := by
  have hstart : (ofCalls start cs).start = start := congrArg Grammar.start (ofCalls_eq start cs)
  refine ⟨?_, fun fault => validate_eq_error_iff, fun cs' hperm => ?_, fun h d hd => ?_⟩
  · rw [validate_eq_ok_iff, fits_iff, hstart]
  · exact ⟨validate_ofCalls_perm hperm, validate_ofCalls_perm hperm.symm⟩
  · have hfits := validate_eq_ok_iff.1 h
    exact name_of_refersTo ((hfits.refersTo_iff d.lhs).2 ⟨d, hd, rfl⟩)

/-- The pattern refers to a symbol before that of any rule declared so far. -/
def forward : Proposal :=
  ⟨"B", "(C) (A)", Action.first⟩

theorem validate_decides_calls :
    (ofCalls "A" [suffixed, unclosed, starred]).validate = .ok () ∧
      [suffixed, unclosed, starred].Perm [starred, unclosed, suffixed] ∧
      (ofCalls "A" [starred, unclosed, suffixed]).validate = .ok () ∧
      (∀ d ∈ (ofCalls "A" [suffixed, unclosed, starred]).declarations,
        Written.Name d.lhs.toList) ∧
      (ofCalls "A" [starred, forward]).Blames (.symbolUndefined "C") := by
  have hvalid : (ofCalls "A" [suffixed, unclosed, starred]).validate = .ok () := by decide +kernel
  have hperm : [suffixed, unclosed, starred].Perm [starred, unclosed, suffixed] :=
    (List.reverse_perm [starred, unclosed, suffixed])
  have hfault : (ofCalls "A" [starred, forward]).validate = .error (.symbolUndefined "C") := by
    decide +kernel
  obtain ⟨-, -, horder, hnames⟩ := validate_decides "A" [suffixed, unclosed, starred]
  exact ⟨hvalid, hperm, (horder _ hperm).1 hvalid, hnames hvalid,
    ((validate_decides "A" [starred, forward]).2.1 _).1 hfault⟩

end Grammar

end ReductionGrammar
