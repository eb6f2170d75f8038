import ValueFlow.Proofs.Flow.Follows

/-!
# The order of questions

What a session was asked before can change what it answers later: a `new`
expression that is evaluated while its callee is still unknown comes to a value
from outside, and no answer ever shrinks (`earlier_question_changes_answer`).

In plain sessions neither switch is met, and a session that was asked less holds
less. So two plain sessions that were asked the same questions hold the same
answers, whatever the order of the questions was.
-/

namespace ValueFlow

open ValueFlow.Lattice (Le)

namespace Session

variable {w : World} {asked asked' : List Query} {s s' : Session}

/-! ## Two sessions -/

/-- Whatever a session has found out, a plain session that was asked as much has
found out too. -/
lemma Reached.subset_of_plain (h : Reached w asked s) (h' : Reached w asked' s')
    (hbuilt : w.program.Built) (hplain : s.Plain) (hasked : ∀ q ∈ asked', s.solver.Touched q)
    {q : Query} {set' : ConfigSet} (hq : s'.Solved q set') :
    ∃ set, s.Solved q set ∧ ∀ c ∈ set', c ∈ set := by
  have hbelow : s'.solver.Below s.solver.Touched s.solver.assignment := by
    refine Solver.below_of_trail h'.trail (fun q hq _ => h.within_equation hbuilt hplain hq)
      (fun q hq => ?_) (fun q v hv => ?_)
    · obtain ⟨r, hr, hrq⟩ := List.mem_map.mp hq
      cases hrq
      exact hasked q hr
    · -- nothing was told from outside
      obtain ⟨r, -, hrv⟩ := List.mem_map.mp hv
      exact nomatch hrv
  obtain ⟨i, c, hi, hc, rfl⟩ := Solver.exists_of_cached (h'.solved_iff.mp hq).1
  obtain ⟨htouched, hle, -⟩ := hbelow i q c hi hc
  refine ⟨s.solver.assignment q, h.solved_iff.mpr ⟨?_, hplain.intact q⟩, PowerSet.le_iff.mp hle⟩
  exact Solver.cached_of_touched h.sane.1 htouched

/-! ## A test -/

/-- Whether a query of the table has a plain answer. -/
def plainAt (s : Session) (q : Query) : Bool :=
  let a := s.world.program.arena
  let values (q : Query) := (s.solver.assignment q).elems
  (s.solver.failure q).isNone &&
    (q.kind != .evaluate ||
      ((values q).all (!a.isResult ·) &&
        match q.config.node?.map a.form with
        | some (.new callee _) =>
          (values ⟨.evaluate, .ofNode callee q.config.env⟩).all (!·.node?.any a.isFunction)
        | _ => true))

def isPlain (s : Session) : Bool := s.solver.queries.toList.all s.plainAt

lemma Reached.plain_of_isPlain (h : Reached w asked s) (hplain : s.isPlain = true) :
    s.Plain := by
  have hat : ∀ q, s.solver.Touched q → s.plainAt q = true := by
    rintro q ⟨i, hi⟩
    refine List.all_eq_true.mp hplain q ?_
    rw [Numbering.toList, Array.mem_toList_iff]
    exact Array.mem_of_getElem? hi
  refine ⟨fun q => ?_, fun config set hset c hc => ?_, fun n callee arguments env hform htouched
    set hset c hc => ?_⟩
  · refine Solver.failure_eq_none_of_all (List.all_eq_true.mpr fun r hr => ?_) q
    have hr := List.all_eq_true.mp hplain r hr
    simp only [plainAt, Bool.and_eq_true] at hr
    exact hr.1
  · obtain ⟨htouched, rfl⟩ := h.touched_of_solved _ _ hset
    have hq := hat _ htouched
    simp only [plainAt, Bool.and_eq_true, bne_self_eq_false, Bool.false_or] at hq
    simpa using List.all_eq_true.mp hq.2.1 c hc
  · obtain ⟨-, rfl⟩ := h.touched_of_solved _ _ hset
    have hq := hat _ htouched
    have hnode : (Config.ofNode n env).node? = some n := rfl
    simp only [plainAt, Bool.and_eq_true, bne_self_eq_false, Bool.false_or, hnode,
      Option.map_some, hform] at hq
    simpa using List.all_eq_true.mp hq.2.2 c hc

-- a session that was asked nothing is plain
example : (start ⟨⟨.empty, .ofCodebase .empty⟩, .standard, 0, []⟩).isPlain = true := by
  decide +kernel

/-! ## The order of questions -/

/-- **The order of the questions does not matter.** Two plain sessions on one
program, each of which has touched whatever the other one was asked, have the
same answer to the question that both were asked last. -/
theorem answers_independent_of_order {sources : Sources} {p : Program}
    (hbuild  : Program.build sources = .ok p) {catalogue : Catalogue} {bound : Nat}
    {targets : List NodeId} {q : Query}
    (h       : Reached ⟨p, catalogue, bound, targets⟩ (asked ++ [q]) s)
    (h'      : Reached ⟨p, catalogue, bound, targets⟩ (asked' ++ [q]) s')
    (hplain  : s.Plain) (hplain' : s'.Plain)
    (hasked  : ∀ r ∈ asked, s'.solver.Touched r)
    (hasked' : ∀ r ∈ asked', s.solver.Touched r) :
    ∃ set set', s.Solved q set ∧ s'.Solved q set' ∧ ∀ c, c ∈ set ↔ c ∈ set' := by
  have hbuilt := Program.built_of_build hbuild
  have hlast : ∀ {asked : List Query} {s : Session},
      Reached ⟨p, catalogue, bound, targets⟩ (asked ++ [q]) s → s.solver.Touched q :=
    fun h => h.touched (List.mem_append_right _ (List.mem_singleton.mpr rfl))
  have hall : ∀ r ∈ asked ++ [q], s'.solver.Touched r := fun r hr =>
    (List.mem_append.mp hr).elim (hasked r) fun hr => List.mem_singleton.mp hr ▸ hlast h'
  have hall' : ∀ r ∈ asked' ++ [q], s.solver.Touched r := fun r hr =>
    (List.mem_append.mp hr).elim (hasked' r) fun hr => List.mem_singleton.mp hr ▸ hlast h
  have hsolved : s.Solved q (s.solver.assignment q) :=
    h.solved_iff.mpr ⟨Solver.cached_of_touched h.sane.1 (hlast h), hplain.intact q⟩
  obtain ⟨set', hset', hsub⟩ := h'.subset_of_plain h hbuilt hplain' hall hsolved
  obtain ⟨set, hset, hsub'⟩ := h.subset_of_plain h' hbuilt hplain hall' hset'
  rw [← hsolved.unique hset] at hsub'
  exact ⟨_, set', hsolved, hset', fun c => ⟨hsub c, hsub' c⟩⟩

def choices : Sources :=
  [("main", "function pick(flag, x) \x7b return flag ? x : 0; \x7d\n" ++
    "const one = pick(true, 1), two = pick(false, 2);")]

/-- The second parameter, where nothing is known about calls. -/
def chosen : Query := ⟨.evaluate, .ofNode 4 (Env.root.cons (.question 9))⟩

def choiceCalls : List Query := [⟨.evaluate, .ofNode 14 .root⟩, ⟨.evaluate, .ofNode 20 .root⟩]

theorem answers_independent_of_order_choices :
    ∃ p s s', Program.build choices = .ok p ∧
      Reached ⟨p, .standard, 1, []⟩ (choiceCalls ++ [chosen]) s ∧
      Reached ⟨p, .standard, 1, []⟩ (choiceCalls.reverse ++ [chosen]) s' ∧ s.Plain ∧ s'.Plain ∧
      ∃ set set', s.Solved chosen set ∧ s'.Solved chosen set' ∧ ∀ c, c ∈ set ↔ c ∈ set' := by
  obtain ⟨p, s, hbuild, -, hs, hplain, s', hask', hplain'⟩ :=
    exists_reached choices 1 (fun _ => choiceCalls ++ [chosen]) (fun p s => s.isPlain = true ∧
      ∃ s' ∈ (start ⟨p, .standard, 1, []⟩).askAll (choiceCalls.reverse ++ [chosen]),
        s'.isPlain = true) (by decide +kernel)
  have hs' := reached_of_askAll hask'
  have hplain := hs.plain_of_isPlain hplain
  have hplain' := hs'.plain_of_isPlain hplain'
  refine ⟨p, s, s', hbuild, hs, hs', hplain, hplain', ?_⟩
  refine answers_independent_of_order hbuild hs hs' hplain hplain' (fun r hr => ?_) fun r hr => ?_
  · exact hs'.touched (List.mem_append_left _ (List.mem_reverse.mpr hr))
  · exact hs.touched (List.mem_append_left _ (List.mem_reverse.mp hr))

def construction : Sources := [("main", "function F() \x7b\x7d\nnew F();")]

def constructed : Query := ⟨.evaluate, .ofNode 4 .root⟩

/-- A session that is asked for the `new` expression at once takes its value to
come from outside. A session that has evaluated the callee before finds that it
has no value. -/
theorem earlier_question_changes_answer :
    ∃ p s s' set set', Program.build construction = .ok p ∧
      p.arena.form 4 = .new 3 [] ∧
      Reached ⟨p, .standard, 1, []⟩ [constructed] s ∧
      Reached ⟨p, .standard, 1, []⟩ [⟨.evaluate, .ofNode 3 .root⟩, constructed] s' ∧
      s.Solved constructed set ∧ s'.Solved constructed set' ∧
      .external ∈ set ∧ .external ∉ set' := by
  obtain ⟨p, s, hbuild, hw, hs, hform, hin, s', hask', hout⟩ :=
    exists_reached construction 1 (fun _ => [constructed]) (fun p s =>
      p.arena.form 4 = .new 3 [] ∧ .external ∈ s.solver.assignment constructed ∧
      ∃ s' ∈ (start ⟨p, .standard, 1, []⟩).askAll [⟨.evaluate, .ofNode 3 .root⟩, constructed],
        .external ∉ s'.solver.assignment constructed) (by decide +kernel)
  have hsolved : ∀ {asked s}, Reached ⟨p, .standard, 1, []⟩ asked s → constructed ∈ asked →
      s.Solved constructed (s.solver.assignment constructed) := fun h hmem =>
    h.solved_iff.mpr ⟨Solver.cached_of_touched h.sane.1 (h.touched hmem),
      h.failure_eq_none hw (by decide)⟩
  have hs' := reached_of_askAll hask'
  exact ⟨p, s, s', _, _, hbuild, hform, hs, hs', hsolved hs (by simp), hsolved hs' (by simp), hin,
    hout⟩

end Session

end ValueFlow
