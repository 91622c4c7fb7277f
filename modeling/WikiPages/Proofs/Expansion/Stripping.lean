import WikiPages.Proofs.Template.Leaks
import WikiPages.Proofs.Expansion.Steps
import WikiPages.Proofs.Success

namespace WikiPages

open Text

namespace Snippet

def Either (P : Text → Prop) (f : Snippet) : Prop := P f.head ∨ ∃ tail ∈ f.tail, P tail

theorem either_map (P : Text → Prop) (change : Text → Text) (f : Snippet) :
    (f.map change).Either P ↔ f.Either (P ∘ change) := by
  simp [Either, map]

end Snippet

namespace Expander

variable {e : Expander} {pageTitle : Text} {block : Block}

-- The snippet of a block before it is stripped, with its line break.
def filled (e : Expander) (pageTitle : Text) (block : Block) : Expansion Snippet := do
  let id ← issue (IdPool.lineContext block.kind block.title)
  let template ← e.page block.kind block.overrides
  let cut := Snippet.ofTemplate template
  let head ← e.fill pageTitle id block cut.head
  match cut.tail with
  | none => pure ((Snippet.leaf head).push lineBreak)
  | some tail =>
    let tail ← e.fill pageTitle id block tail
    let inner ← e.slotText pageTitle template block
    pure (((Snippet.withSlot head tail).pushBeforeSlot inner).push lineBreak)

theorem expand_eq_map :
    e.expand pageTitle block = Snippet.map Hole.stripUnfilled <$> e.filled pageTitle block := by
  rw [expand, filled]
  simp only [map_bind]
  refine bind_congr fun id => bind_congr fun template => bind_congr fun head => ?_
  cases (Snippet.ofTemplate template).tail
  case none => exact (map_pure _ _).symm
  case some tail => simp only [map_bind, map_pure, finishSnippet]

theorem exists_of_run_map {α β : Type} {x : Expansion α} {f : α → β} {b : β} {l l' : Ledger}
    (h : (f <$> x).run.run l = (.ok b, l')) : ∃ a, x.run.run l = (.ok a, l') ∧ f a = b := by
  have hr : (f <$> x).run.run l = ((x.run.run l).1.map f, (x.run.run l).2) := by
    rw [ExceptT.run_map, StateT.run_map]
    rfl
  rw [hr] at h
  have ⟨a, ha, hf⟩ := exists_of_map (Prod.mk.inj h).1
  exact ⟨a, Prod.ext ha (Prod.mk.inj h).2, hf⟩

-- A hole shows in what is returned exactly if stripping lets one through.
theorem leaks_expand_iff {f : Snippet} {l l' : Ledger}
    (h : (e.expand pageTitle block).run.run l = (.ok f, l')) :
    ∃ g, (e.filled pageTitle block).run.run l = (.ok g, l') ∧ f = g.map Hole.stripUnfilled ∧
      (f.Either Hole.Leaks ↔ g.Either Hole.Reopens) := by
  rw [expand_eq_map] at h
  have ⟨g, hg, hf⟩ := exists_of_run_map h
  refine ⟨g, hg, hf.symm, ?_⟩
  rw [← hf, Snippet.either_map]
  simp only [Snippet.Either, Function.comp_apply, Hole.leaks_stripUnfilled_iff]

def besides : Expander := ofText "<p>$\x7ba\x7d$\x7bb\x7d<i>$\x7bautomenu:li\x7d</i></p>"

theorem leaks_expand_besides :
    let run := (besides.expand (lit "Main") { kind := lit "x" }).run.run {}
    let f := Snippet.leaf (lit "<p><i>$\x7bautomenu:li\x7d</i></p>\n")
    run.1 = .ok f ∧ ∃ g : Snippet,
      (besides.filled (lit "Main") { kind := lit "x" }).run.run {} = (.ok g, run.2) ∧
        f = g.map Hole.stripUnfilled ∧ (f.Either Hole.Leaks ↔ g.Either Hole.Reopens) := by
  intro run f
  have hr : run.1 = .ok f := by rfl
  exact ⟨hr, leaks_expand_iff (Prod.ext hr rfl)⟩

def between : Expander := ofText "<p>$$\x7by\x7d\x7bz\x7d</p>"

-- A `$` in front of a hole opens another one when the hole is taken out.
theorem not_sealed_between :
    ¬ ∀ (e : Expander) (pageTitle line : Text) (block : Block) (l l' : Ledger) (f : Snippet),
      Block.ofLine e.fetch line = .ok block → (e.expand pageTitle block).run.run l = (.ok f, l') →
        ¬ f.Either Hole.Leaks := by
  intro h
  have hb : Block.ofLine between.fetch (lit "\x7bx\x7d") = .ok { kind := lit "x" } := by rfl
  have hr : ((between.expand (lit "Main") { kind := lit "x" }).run.run {}).1 =
      .ok (Snippet.leaf (lit "<p>$\x7bz\x7d</p>\n")) := by rfl
  have hl : Hole.Leaks (lit "<p>$\x7bz\x7d</p>\n") := by decide
  exact h between (lit "Main") (lit "\x7bx\x7d") _ {} _ _ hb (Prod.ext hr rfl) (.inl hl)

end Expander
end WikiPages
