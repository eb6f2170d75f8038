import ValueFlow.Proofs.Flow.Calls
import ValueFlow.Proofs.Flow.Elements
import ValueFlow.Proofs.Flow.Values

/-!
# Arguments and spreads

A call passes a list of values that is longer or shorter than the list of its
arguments as soon as one of them is spread. Where all that is spread are array
literals, the values passed can be read off: these are the *actual* arguments
of the call. The rules have only the positions of the arguments to go by. Up to
the first spread the two agree; behind it any argument can be at any position.

The parameters of a function, its rest parameter and the list of the arguments as
an array are compared with the actual arguments.
-/

namespace ValueFlow

lemma Form.eq_spread_of_isSpread {α : Type} {form : Form α} (h : form.isSpread = true) :
    ∃ inner, form = .spread inner := by
  unfold isSpread at h
  split at h
  · exact ⟨_, rfl⟩
  · cases h

namespace Arena

variable (a : Arena)

structure Actual where
  /-- The expression that it is the value of. -/
  value : NodeId
  /-- Where the rules look for it: the argument, or the array that is spread. -/
  origin : Cursor
  deriving DecidableEq

/-- What one argument passes, unless it spreads something else than an array
literal without holes and without spreads of its own. -/
def actualsOf? (argument : NodeId) : Option (List Actual) :=
  match a.form argument with
  | .spread inner =>
    match a.form inner with
    | .array elements =>
      if elements.all fun element => element.any fun n => !(a.form n).isSpread then
        some ((elements.filterMap id).map fun n => ⟨n, .pick inner none⟩)
      else none
    | _ => none
  | _ => some [⟨argument, .node argument⟩]

def actuals? : List NodeId → Option (List Actual)
  | [] => some []
  | argument :: rest => do
    let first ← a.actualsOf? argument
    return first ++ (← actuals? rest)

def firstSpread? (arguments : List NodeId) : Option Nat :=
  arguments.findIdx? fun n => (a.form n).isSpread

variable {a} {argument : NodeId} {all : List Actual} {arguments : List NodeId}

lemma actuals?_cons {rest : List NodeId} (h : a.actuals? (argument :: rest) = some all) :
    ∃ first others, a.actualsOf? argument = some first ∧ a.actuals? rest = some others ∧
      all = first ++ others := by
  obtain ⟨first, hfirst, h⟩ := Option.bind_eq_some_iff.mp h
  obtain ⟨others, hothers, h⟩ := Option.bind_eq_some_iff.mp h
  cases h
  exact ⟨first, others, hfirst, hothers, rfl⟩

lemma actuals?_append {before after : List NodeId} (h : a.actuals? (before ++ after) = some all) :
    ∃ first others, a.actuals? before = some first ∧ a.actuals? after = some others ∧
      all = first ++ others := by
  induction before generalizing all with
  | nil => exact ⟨[], all, rfl, h, rfl⟩
  | cons argument before ih =>
    obtain ⟨own, rest, hown, hrest, rfl⟩ := actuals?_cons h
    obtain ⟨first, others, hfirst, hothers, rfl⟩ := ih hrest
    refine ⟨own ++ first, others, ?_, hothers, (List.append_assoc _ _ _).symm⟩
    simp [actuals?, hown, hfirst]

lemma actualsOf?_of_plain (h : (a.form argument).isSpread = false) :
    a.actualsOf? argument = some [⟨argument, .node argument⟩] := by
  unfold actualsOf?
  split
  · next inner hform =>
    rw [hform] at h
    cases h
  · rfl

/-- Arguments that are not spread pass themselves. -/
lemma actuals?_of_plain (h : ∀ x ∈ arguments, (a.form x).isSpread = false) :
    a.actuals? arguments = some (arguments.map fun x => ⟨x, .node x⟩) := by
  induction arguments with
  | nil => rfl
  | cons argument rest ih =>
    have hrest := ih fun x hx => h x (.tail _ hx)
    simp [actuals?, actualsOf?_of_plain (h argument (.head _)), hrest]

lemma getElem?_actuals_of_plain {actuals : List Actual} (h : a.actuals? arguments = some actuals)
    {i : Nat} {actual : Actual} (hplain : ∀ x ∈ arguments.take (i + 1), (a.form x).isSpread = false)
    (hi : actuals[i]? = some actual) : ∃ n, arguments[i]? = some n ∧ actual = ⟨n, .node n⟩ := by
  induction arguments generalizing i actuals with
  | nil =>
    cases h
    cases hi
  | cons argument rest ih =>
    obtain ⟨first, tail, hfirst, htail, rfl⟩ := actuals?_cons h
    rw [actualsOf?_of_plain (hplain argument (.head _))] at hfirst
    cases hfirst
    cases i with
    | zero =>
      cases hi
      exact ⟨argument, rfl, rfl⟩
    | succ i => exact ih htail (fun x hx => hplain x (.tail _ hx)) hi

lemma actualsOf?_of_spread {inner : NodeId} (hform : a.form argument = .spread inner)
    {first : List Actual} (h : a.actualsOf? argument = some first) :
    ∃ elements, a.form inner = .array elements ∧
      (∀ n, some n ∈ elements → (a.form n).isSpread = false) ∧
      ∀ actual ∈ first, actual.origin = .pick inner none ∧ some actual.value ∈ elements := by
  unfold actualsOf? at h
  rw [hform] at h
  dsimp only at h
  split at h
  · next elements harray =>
    split at h
    · next hall =>
      cases h
      refine ⟨elements, harray, fun n hn => ?_, fun actual hactual => ?_⟩
      · simpa using List.all_eq_true.mp hall _ hn
      · obtain ⟨n, hn, rfl⟩ := List.mem_map.mp hactual
        exact ⟨rfl, by simpa using hn⟩
    · cases h
  · cases h

end Arena

namespace Rule

variable {setting : Setting} {env : Env} {position : Nat} {arguments : List NodeId}
  {actuals : List Arena.Actual}

/-! ## Plain parameters -/

lemma argumentOriginsFrom_of_spread {argument : NodeId} {rest : List NodeId} {offset : Nat}
    {behind : Bool} {others : ConfigSet} {first tail : List Arena.Actual}
    (hspread : (setting.world.program.arena.form argument).isSpread = true)
    (hfirst : setting.world.program.arena.actualsOf? argument = some first)
    (hothers : argumentOriginsFrom env position (offset + 1) true rest setting = .done others)
    (htail : ∀ actual ∈ tail, ⟨actual.origin, env⟩ ∈ others) :
    ∃ origins, argumentOriginsFrom env position offset behind (argument :: rest) setting =
      .done origins ∧ ∀ actual ∈ first ++ tail, ⟨actual.origin, env⟩ ∈ origins := by
  obtain ⟨inner, hform⟩ := Form.eq_spread_of_isSpread hspread
  obtain ⟨elements, -, -, hfrom⟩ := Arena.actualsOf?_of_spread hform hfirst
  refine ⟨others.insert ⟨.pick inner none, env⟩, ?_, fun actual hactual => ?_⟩
  · rw [argumentOriginsFrom, run_formOf, hform]
    exact Session.run_bind hothers rfl
  obtain hactual | hactual := List.mem_append.mp hactual
  · rw [(hfrom actual hactual).1]
    exact PowerSet.mem_insert.mpr (.inr rfl)
  · exact PowerSet.mem_insert.mpr (.inl (htail actual hactual))

lemma argumentOriginsFrom_behind_spread (env : Env) (position offset : Nat)
    (h : setting.world.program.arena.actuals? arguments = some actuals) :
    ∃ origins, argumentOriginsFrom env position offset true arguments setting = .done origins ∧
      ∀ actual ∈ actuals, ⟨actual.origin, env⟩ ∈ origins := by
  induction arguments generalizing offset actuals with
  | nil =>
    cases h
    exact ⟨.empty, rfl, fun actual hactual => nomatch hactual⟩
  | cons argument rest ih =>
    obtain ⟨first, tail, hfirst, htail, rfl⟩ := Arena.actuals?_cons h
    obtain ⟨others, hothers, hin⟩ := ih (offset + 1) htail
    cases hspread : (setting.world.program.arena.form argument).isSpread with
    | false =>
      refine ⟨others.insert (.ofNode argument env), ?_, fun actual hactual => ?_⟩
      · rw [run_argumentOriginsFrom_of_plain hspread, if_pos rfl]
        exact Session.run_bind hothers rfl
      · rw [Arena.actualsOf?_of_plain hspread] at hfirst
        cases hfirst
        obtain rfl | hactual := List.mem_cons.mp hactual
        · exact PowerSet.mem_insert.mpr (.inr rfl)
        · exact PowerSet.mem_insert.mpr (.inl (hin actual hactual))
    | true => exact argumentOriginsFrom_of_spread hspread hfirst hothers hin

/-- The supplier of the actual argument at a position is among the origins there. -/
lemma argumentOriginsFrom_of_actual (env : Env) (offset : Nat) {i : Nat} {actual : Arena.Actual}
    (h : setting.world.program.arena.actuals? arguments = some actuals)
    (hi : actuals[i]? = some actual) :
    ∃ origins, argumentOriginsFrom env (offset + i) offset false arguments setting =
      .done origins ∧ ⟨actual.origin, env⟩ ∈ origins := by
  induction arguments generalizing offset i actuals with
  | nil =>
    cases h
    cases hi
  | cons argument rest ih =>
    obtain ⟨first, tail, hfirst, htail, rfl⟩ := Arena.actuals?_cons h
    cases hspread : (setting.world.program.arena.form argument).isSpread with
    | false =>
      rw [run_argumentOriginsFrom_of_plain hspread, if_neg Bool.false_ne_true]
      rw [Arena.actualsOf?_of_plain hspread] at hfirst
      cases hfirst
      cases i with
      | zero =>
        cases hi
        exact ⟨_, by rw [if_pos (Nat.add_zero offset).symm]; rfl, PowerSet.mem_singleton.mpr rfl⟩
      | succ i =>
        have hshift : offset + (i + 1) = offset + 1 + i := by omega
        rw [if_neg (by omega), hshift]
        exact ih (offset + 1) htail hi
    | true =>
      -- from here on positions do not matter, so all actual arguments are origins
      obtain ⟨others, hothers, hin⟩ :=
        argumentOriginsFrom_behind_spread env (offset + i) (offset + 1) htail
      obtain ⟨origins, horigins, hall⟩ := argumentOriginsFrom_of_spread hspread hfirst hothers hin
      exact ⟨origins, horigins, hall actual (List.mem_of_getElem? hi)⟩

/-- **Plain parameters see their argument across spreads.** The expression that
supplies the actual argument at a position, or the array that is spread there,
is among the origins of that position. Where no spread stands at or before the
position, the argument there is the only origin. -/
theorem argument_origins_across_spreads (setting : Setting) {call callee : NodeId}
    {arguments : List NodeId}
    (hcall : (setting.world.program.arena.form call).callParts? = some (callee, arguments))
    {actuals : List Arena.Actual}
    (hactuals : setting.world.program.arena.actuals? arguments = some actuals)
    {i : Nat} (hi : i < actuals.length) (env : Env) :
    ∃ origins, argumentOrigins call i env setting = .done origins ∧
      ⟨actuals[i].origin, env⟩ ∈ origins ∧
      ((∀ x ∈ arguments.take (i + 1), (setting.world.program.arena.form x).isSpread = false) →
        ∃ n, arguments[i]? = some n ∧ actuals[i] = ⟨n, .node n⟩ ∧
          origins = .singleton ⟨.node n, env⟩) := by
  have hget : actuals[i]? = some actuals[i] := List.getElem?_eq_getElem hi
  obtain ⟨origins, horigins, hmem⟩ := argumentOriginsFrom_of_actual env 0 hactuals hget
  rw [Nat.zero_add] at horigins
  refine ⟨origins, Session.run_bind (run_argumentsOf hcall) horigins, hmem, fun hplain => ?_⟩
  obtain ⟨n, hn, hactual⟩ := Arena.getElem?_actuals_of_plain hactuals hplain hget
  have hexact := argumentOriginsFrom_before_spread env 0 hplain hn
  rw [Nat.zero_add, horigins] at hexact
  cases hexact
  exact ⟨n, hn, hactual, rfl⟩

/-- A call with a spread between two plain arguments. -/
def mixedCall : Sources := [("main", "f(1, ...[2, 3], 4);")]

theorem argument_origins_across_spreads_mixed :
    ∃ p origins, Program.build mixedCall = .ok p ∧
      (p.arena.form 7).callParts? = some (0, [1, 5, 6]) ∧
      p.arena.actuals? [1, 5, 6] =
        some [⟨1, .node 1⟩, ⟨2, .pick 4 none⟩, ⟨3, .pick 4 none⟩, ⟨6, .node 6⟩] ∧
      argumentOrigins 7 2 .root ⟨⟨p, .standard, 1, []⟩, []⟩ = .done origins ∧
      ⟨.pick 4 none, .root⟩ ∈ origins := by
  obtain ⟨p, hbuild, hcall, hactuals⟩ := Program.exists_of_test mixedCall (fun p =>
    (p.arena.form 7).callParts? = some (0, [1, 5, 6]) ∧ p.arena.actuals? [1, 5, 6] =
      some [⟨1, .node 1⟩, ⟨2, .pick 4 none⟩, ⟨3, .pick 4 none⟩, ⟨6, .node 6⟩]) (by decide +kernel)
  obtain ⟨origins, horigins, hmem, -⟩ := argument_origins_across_spreads
    ⟨⟨p, .standard, 1, []⟩, []⟩ hcall hactuals (i := 2) (by decide) .root
  exact ⟨p, origins, hbuild, hcall, hactuals, horigins, hmem⟩

/-! ## Argument lists and array literals -/

section Lists

variable {perform : Meaning} {position : Option Nat} {argument inner : NodeId} {rest : List NodeId}
  {offset : Option Nat} {element : NodeId} {arguments : List NodeId} {P : Request → Prop}
  {set : ConfigSet} {counts : Option Nat → Bool}

lemma run_congr {α β : Type} {r : Rule α} {f g : α → Rule β}
    (h : ∀ a, f a setting = g a setting) : (r >>= f) setting = (r >>= g) setting :=
  congrArg (Rhs.bind (r setting)) (funext h)

lemma run_congr_left {α β : Type} {r r' : Rule α} {f : α → Rule β}
    (h : r setting = r' setting) : (r >>= f) setting = (r' >>= f) setting :=
  congrArg (Rhs.bind · fun a => f a setting) h

lemma run_listedElements_of_spread {rest : List (Option NodeId)}
    (hform : setting.world.program.arena.form element = .spread inner) :
    listedElements perform counts env position offset (some element :: rest) setting =
      (do
        return (← (if counts offset then spreadElements perform inner env else pure .empty)) ∪
          (← listedElements perform counts env position none rest) : Rule ConfigSet) setting := by
  rw [listedElements, run_formOf, hform]
  rfl

lemma run_listedElements_of_plain {rest : List (Option NodeId)}
    (hform : (setting.world.program.arena.form element).isSpread = false) :
    listedElements perform counts env position offset (some element :: rest) setting =
      (do
        return (← plainElements position offset element env) ∪
          (← listedElements perform counts env position (offset.map (· + 1)) rest)
        : Rule ConfigSet) setting := by
  rw [listedElements, run_formOf]
  generalize setting.world.program.arena.form element = form at hform ⊢
  cases form with
  | spread inner => cases hform
  | _ => rfl

lemma listedElements_behind_spread (elements : List (Option NodeId)) :
    listedElements perform (fun _ => true) env position none elements =
      listedElements perform (reaches position) env position none elements := by
  have hreaches : reaches position none = true := by cases position <;> rfl
  induction elements with
  | nil => rfl
  | cons element rest ih =>
    cases element with
    | none => exact ih
    | some element =>
      unfold listedElements
      refine bind_congr fun form => ?_
      cases form <;> simp [listedPart, hreaches, ih]

lemma firstSpread?_cons_of_plain {a : Arena} (h : (a.form argument).isSpread = false) :
    a.firstSpread? (argument :: rest) = (a.firstSpread? rest).map (· + 1) := by
  simp [Arena.firstSpread?, List.findIdx?_cons, h]

lemma firstSpread?_cons_of_spread {a : Arena} (h : (a.form argument).isSpread = true) :
    a.firstSpread? (argument :: rest) = some 0 := by
  simp [Arena.firstSpread?, List.findIdx?_cons, h]

/-- The two loops are the same where no spread stands behind a known position. -/
lemma argumentElementsFrom_eq_literal {offset : Nat} (h : ∀ i k, position = some i →
      setting.world.program.arena.firstSpread? arguments = some k → offset + k ≤ i) :
    argumentElementsFrom perform env position (some offset) arguments setting =
      literalElementsFrom perform env position (some offset) (arguments.map some) setting := by
  rw [argumentElementsFrom_eq, literalElementsFrom_eq]
  induction arguments generalizing offset with
  | nil => rfl
  | cons argument rest ih =>
    rw [List.map_cons]
    cases hspread : (setting.world.program.arena.form argument).isSpread with
    | false =>
      rw [run_listedElements_of_plain hspread, run_listedElements_of_plain hspread]
      refine run_congr fun found => run_congr_left (ih fun i k hi hk => ?_)
      have hbound := h i (k + 1) hi (by rw [firstSpread?_cons_of_plain hspread, hk]; rfl)
      change offset + 1 + k ≤ i
      omega
    | true =>
      obtain ⟨inner, hform⟩ := Form.eq_spread_of_isSpread hspread
      have hreaches : reaches position (some offset) = true := by
        cases hposition : position with
        | none => rfl
        | some i => exact decide_eq_true (h i 0 hposition (firstSpread?_cons_of_spread hspread))
      rw [run_listedElements_of_spread hform, run_listedElements_of_spread hform, hreaches,
        listedElements_behind_spread]

/-- Where the first spread stands behind a known position, the arguments have
its elements on top of those of the array literal. -/
lemma Comes.argumentElementsFrom_before_spread (offset : Nat) {i k : Nat} {x : NodeId}
    (hk : setting.world.program.arena.firstSpread? arguments = some k) (hi : i < offset + k)
    (hx : arguments[k]? = some x) (hform : setting.world.program.arena.form x = .spread inner)
    (h : Comes P setting (argumentElementsFrom perform env (some i) (some offset) arguments) set) :
    ∃ own extra,
      Comes P setting
        (literalElementsFrom perform env (some i) (some offset) (arguments.map some)) own ∧
      Comes P setting (spreadElements perform inner env) extra ∧
      ∀ c, c ∈ set ↔ c ∈ own ∨ c ∈ extra := by
  rw [argumentElementsFrom_eq] at h
  rw [literalElementsFrom_eq]
  induction arguments generalizing offset k set with
  | nil => cases hx
  | cons argument rest ih =>
    rw [List.map_cons] at h ⊢
    unfold Comes at h ⊢
    cases hspread : (setting.world.program.arena.form argument).isSpread with
    | false =>
      rw [run_listedElements_of_plain hspread] at h ⊢
      rw [firstSpread?_cons_of_plain hspread] at hk
      obtain ⟨j, hj, rfl⟩ := Option.map_eq_some_iff.mp hk
      obtain ⟨found, hfound, h⟩ := Comes.bind h
      obtain ⟨others, hothers, h⟩ := Comes.bind h
      cases h.pure
      obtain ⟨own, extra, hown, hextra, hmem⟩ := ih (offset + 1) hj (by omega) hx hothers
      refine ⟨found ∪ own, extra, hfound.andThen (hown.andThen (comes_pure _)), hextra, fun c => ?_⟩
      simp only [PowerSet.mem_union, hmem, or_assoc]
    | true =>
      rw [firstSpread?_cons_of_spread hspread] at hk
      cases hk
      cases hx
      rw [run_listedElements_of_spread hform] at h ⊢
      obtain ⟨extra, hextra, h⟩ := Comes.bind h
      obtain ⟨others, hothers, h⟩ := Comes.bind h
      cases h.pure
      have hreaches : ¬ reaches (some i) (some offset) = true := by simpa [reaches] using hi
      rw [if_neg hreaches]
      rw [listedElements_behind_spread] at hothers
      refine ⟨_, extra, (comes_pure _).andThen (hothers.andThen (comes_pure _)), hextra,
        fun c => ?_⟩
      simp [or_comm]

/-- At an unknown position all the values of what is listed are there. -/
lemma Comes.listedElements_unknown
    {elements : List (Option NodeId)} {n : NodeId}
    (h : Comes P setting (listedElements perform counts env none offset elements) set)
    (hn : some n ∈ elements) (hplain : (setting.world.program.arena.form n).isSpread = false) :
    ∃ part, P (.read ⟨.evaluate, .ofNode n env⟩ part) ∧ ∀ c ∈ part, c ∈ set := by
  induction elements generalizing offset set with
  | nil => cases hn
  | cons element rest ih =>
    cases element with
    | none => exact ih h ((List.mem_cons.mp hn).resolve_left (by simp))
    | some element =>
      unfold listedElements at h
      obtain ⟨found, hfound, h⟩ := (comes_bind_formOf.mp h).bind
      obtain ⟨others, hothers, h⟩ := h.bind
      cases h.pure
      obtain heq | hn := List.mem_cons.mp hn
      · cases heq
        unfold listedPart at hfound
        split at hfound
        · next hform =>
          rw [hform] at hplain
          cases hplain
        · exact ⟨found, hfound.ask, fun c hc => PowerSet.mem_union.mpr (.inl hc)⟩
      · obtain ⟨part, hpart, hsub⟩ := ih hothers hn
        exact ⟨part, hpart, fun c hc => PowerSet.mem_union.mpr (.inr (hsub c hc))⟩

lemma elems_singleton (c : Config) : (PowerSet.singleton c).elems = [c] := by
  unfold PowerSet.singleton PowerSet.insert
  rw [dif_neg (PowerSet.not_mem_empty c)]
  rfl

/-- One value is looked at once its environment is numbered. -/
lemma run_unionOver_singleton (c : Config) (f : Config → Rule ConfigSet) :
    unionOver (.singleton c) f setting = (known c.env >>= fun _ => f c) setting := by
  have hone : unionOf [c] f setting = f c setting :=
    (Rhs.bind_done _).trans (Rhs.bind_done (f c setting))
  unfold unionOver inOrder
  rw [elems_singleton]
  exact congrArg (Rhs.number c.env) (funext fun i => hone)

/-- **Argument lists behave like array literals, except before a spread.** The
arguments of a call from some position on have the same elements as an array
literal that is written with them, asked for in the same order. Only where the
first of them that is spread stands behind a known position, the elements of
what it spreads are there as well. -/
theorem argument_list_as_array (perform : Meaning) (setting : Setting) {call callee : NodeId}
    {arguments : List NodeId}
    (hcall : (setting.world.program.arena.form call).callParts? = some (callee, arguments))
    (first : Nat) (env : Env) (position : Option Nat) :
    let a := setting.world.program.arena
    let listed := arguments.drop first
    let found := elementValues perform (.singleton ⟨.arguments call first, env⟩) position
    let written := literalElementsFrom perform env position (some 0) (listed.map some)
    ((∀ i k, position = some i → a.firstSpread? listed = some k → k ≤ i) →
      found setting = (known env >>= fun _ => written) setting) ∧
    ∀ i k x inner, position = some i → a.firstSpread? listed = some k → i < k →
      listed[k]? = some x → a.form x = .spread inner →
      ∀ {P : Request → Prop} {set : ConfigSet}, Comes P setting found set →
        ∃ own extra, Comes P setting written own ∧
          Comes P setting (spreadElements perform inner env) extra ∧
          ∀ c, c ∈ set ↔ c ∈ own ∨ c ∈ extra := by
  intro a listed found written
  have hfound : found setting =
      (known env >>= fun _ => argumentElementsFrom perform env position (some 0) listed)
        setting := by
    refine (run_unionOver_singleton _ _).trans (run_congr fun _ => ?_)
    exact run_then (run_argumentsOf hcall)
  refine ⟨fun h => ?_, fun i k x inner hi hk hlt hx hform P set hset => ?_⟩
  · rw [hfound]
    refine run_congr fun _ => argumentElementsFrom_eq_literal fun i k hi hk => ?_
    rw [Nat.zero_add]
    exact h i k hi hk
  · unfold Comes at hset
    rw [hfound] at hset
    obtain ⟨_, -, hset⟩ := Comes.bind hset
    subst hi
    exact hset.argumentElementsFrom_before_spread 0 hk (by omega) hx hform

theorem argument_list_as_array_mixed :
    ∃ p, Program.build mixedCall = .ok p ∧
      (p.arena.form 7).callParts? = some (0, [1, 5, 6]) ∧
      p.arena.firstSpread? [1, 5, 6] = some 1 ∧
      ∀ depth, elementValues (meaning depth) (.singleton ⟨.arguments 7 0, .root⟩) (some 1)
          ⟨⟨p, .standard, 1, []⟩, []⟩ =
        (known .root >>= fun _ => literalElementsFrom (meaning depth) .root (some 1) (some 0)
          [some 1, some 5, some 6]) ⟨⟨p, .standard, 1, []⟩, []⟩ := by
  obtain ⟨p, hbuild, hcall, hfirst⟩ := Program.exists_of_test mixedCall (fun p =>
    (p.arena.form 7).callParts? = some (0, [1, 5, 6]) ∧ p.arena.firstSpread? [1, 5, 6] = some 1)
    (by decide +kernel)
  refine ⟨p, hbuild, hcall, hfirst, fun depth => ?_⟩
  obtain ⟨hsame, -⟩ := argument_list_as_array (meaning depth)
    ⟨⟨p, .standard, 1, []⟩, []⟩ hcall 0 .root (some 1)
  refine hsame fun i k hi hk => ?_
  cases hi
  cases hfirst.symm.trans hk
  exact Nat.le_refl 1

end Lists

end Rule

namespace Session

variable {w : World} {asked : List Query} {s : Session} {env : Env} {depth : Nat} {set : ConfigSet}
  {text : Symbol}

/-- One number and one that is spread, passed to a rest parameter and written in an array
literal, both read at the first position. -/
def listAndArray : Sources :=
  [("main", "function f(...r) \x7b return r[0]; \x7d\nf(1, ...[2]);\n[1, ...[2]][0];")]

/-- The list of arguments has the spread number at the first position, the array has not. -/
theorem argument_list_counts_later_spread :
    ∃ p s passed written, Program.build listAndArray = .ok p ∧
      Reached ⟨p, .standard, 1, []⟩ [⟨.evaluate, .ofNode 14 .root⟩, ⟨.evaluate, .ofNode 22 .root⟩] s ∧
      p.arena.form 14 = .call 9 [10, 13] false ∧ p.arena.form 20 = .array [some 16, some 19] ∧
      s.Solved ⟨.evaluate, .ofNode 14 .root⟩ passed ∧
      s.Solved ⟨.evaluate, .ofNode 22 .root⟩ written ∧
      .ofNode 10 .root ∈ passed ∧ .ofNode 11 .root ∈ passed ∧
      .ofNode 16 .root ∈ written ∧ .ofNode 17 .root ∉ written := by
  obtain ⟨p, s, hbuild, hw, hs, hcall, harray, hvalues⟩ :=
    exists_reached listAndArray 1
      (fun _ => [⟨.evaluate, .ofNode 14 .root⟩, ⟨.evaluate, .ofNode 22 .root⟩]) (fun p s =>
      p.arena.form 14 = .call 9 [10, 13] false ∧ p.arena.form 20 = .array [some 16, some 19] ∧
      .ofNode 10 .root ∈ s.solver.assignment ⟨.evaluate, .ofNode 14 .root⟩ ∧
      .ofNode 11 .root ∈ s.solver.assignment ⟨.evaluate, .ofNode 14 .root⟩ ∧
      .ofNode 16 .root ∈ s.solver.assignment ⟨.evaluate, .ofNode 22 .root⟩ ∧
      .ofNode 17 .root ∉ s.solver.assignment ⟨.evaluate, .ofNode 22 .root⟩) (by decide +kernel)
  have hpassed := hs.solved_assignment hw (.head _) (fun hkind => by cases hkind)
  have hwritten := hs.solved_assignment hw (.tail _ (.head _)) (fun hkind => by cases hkind)
  exact ⟨p, s, _, _, hbuild, hs, hcall, harray, hpassed, hwritten, hvalues⟩

/-! ## Rest parameters -/

lemma itself_of_solved (hw : w.Sound) (h : Reached w asked s) {n : NodeId}
    (hform : (∃ text, w.arena.form n = .number text) ∨
      ∃ elements, w.arena.form n = .array elements)
    (hset : s.Solved ⟨.evaluate, .ofNode n env⟩ set) : .ofNode n env ∈ set := by
  obtain ⟨own, hown, hsub⟩ := h.comes hw hset
  change Rule.Comes s.Grants ⟨w, []⟩ (Rule.evaluateNode _ n env) own at hown
  unfold Rule.evaluateNode at hown
  rw [Rule.comes_bind_formOf] at hown
  obtain ⟨text, hform⟩ | ⟨elements, hform⟩ := hform
  all_goals
    rw [hform] at hown
    cases hown.pure
    exact hsub _ (PowerSet.mem_singleton.mpr rfl)

-- a spread is not
example : (Form.array [some 2]).isValue = true ∧ (Form.spread 2).isValue = false := by
  decide +kernel

/-- The numbers that an array literal is written with are among its elements when it is
spread. -/
lemma mem_spreadElements (hw : w.Sound) (h : Reached w asked s) {inner n : NodeId}
    {elements : List (Option NodeId)} (hinner : w.arena.form inner = .array elements)
    (hn : some n ∈ elements) (hnumber : w.arena.form n = .number text)
    (hset : Rule.Comes s.Grants ⟨w, []⟩ (Rule.spreadElements (Rule.meaning depth) inner env) set) :
    .ofNode n env ∈ set := by
  obtain rfl := h.world_eq
  obtain ⟨receivers, hreceivers, hset⟩ := hset.bind
  have hself := itself_of_solved hw h (.inr ⟨elements, hinner⟩) hreceivers.ask
  cases depth with
  | zero => exact absurd hset (Rule.not_comes_diverge set)
  | succ depth =>
    obtain ⟨part, hpart, hsub⟩ := Rule.Comes.unionOver hset hself
    refine hsub _ ?_
    change Rule.Comes s.Grants ⟨s.world, []⟩ (Rule.formOf inner >>= _) part at hpart
    rw [Rule.comes_bind_formOf, hinner] at hpart
    -- nothing is being worked on, so the array is opened
    change Rule.Comes s.Grants ⟨s.world, [_]⟩ (Rule.arrayElements _ (.ofNode inner env) none) part
      at hpart
    unfold Rule.arrayElements at hpart
    dsimp only [Config.node?, Config.ofNode, Cursor.node?] at hpart
    rw [Rule.comes_bind_formOf, hinner] at hpart
    obtain ⟨own, hown, hpart⟩ := hpart.bind
    obtain ⟨aliases, -, hpart⟩ := hpart.bind
    obtain ⟨added, -, hpart⟩ := hpart.bind
    cases hpart.pure
    rw [Rule.literalElementsFrom_eq] at hown
    obtain ⟨found, hfound, hincluded⟩ := hown.listedElements_unknown hn (by rw [hnumber]; rfl)
    exact PowerSet.mem_union.mpr
      (.inl (hincluded _ (itself_of_solved hw h (.inl ⟨text, hnumber⟩) hfound)))

/-- The numbers that the arguments pass are among the elements of the list of them. -/
lemma mem_argumentElementsFrom (hw : w.Sound) (h : Reached w asked s) {arguments : List NodeId}
    {actuals : List Arena.Actual} {actual : Arena.Actual} {offset : Option Nat}
    (hactuals : w.arena.actuals? arguments = some actuals) (hactual : actual ∈ actuals)
    (hnumber : w.arena.form actual.value = .number text) (hset : Rule.Comes s.Grants ⟨w, []⟩
      (Rule.argumentElementsFrom (Rule.meaning depth) env none offset arguments) set) :
    .ofNode actual.value env ∈ set := by
  rw [Rule.argumentElementsFrom_eq] at hset
  induction arguments generalizing offset actuals set with
  | nil =>
    cases hactuals
    cases hactual
  | cons argument rest ih =>
    obtain ⟨first, tail, hfirst, htail, rfl⟩ := Arena.actuals?_cons hactuals
    rw [List.map_cons] at hset
    unfold Rule.listedElements at hset
    obtain ⟨found, hfound, hset⟩ := (Rule.comes_bind_formOf.mp hset).bind
    obtain ⟨others, hothers, hset⟩ := hset.bind
    cases hset.pure
    refine PowerSet.mem_union.mpr ?_
    obtain hactual | hactual := List.mem_append.mp hactual
    · left
      cases hspread : (w.arena.form argument).isSpread with
      | false =>
        rw [Arena.actualsOf?_of_plain hspread] at hfirst
        cases hfirst
        cases List.mem_singleton.mp hactual
        rw [show (⟨w, []⟩ : Setting).world.program.arena.form argument = _ from hnumber] at hfound
        exact itself_of_solved hw h (.inl ⟨text, hnumber⟩) hfound.ask
      | true =>
        obtain ⟨inner, hform⟩ := Form.eq_spread_of_isSpread hspread
        obtain ⟨elements, harray, -, hfrom⟩ := Arena.actualsOf?_of_spread hform hfirst
        rw [show (⟨w, []⟩ : Setting).world.program.arena.form argument = _ from hform] at hfound
        exact mem_spreadElements hw h harray (hfrom actual hactual).2 hnumber hfound
    · exact .inr (ih htail hactual hothers)

/-- **Rest parameters collect what is passed from their position on.** Let a call that a
session has evaluated invoke a function with a rest parameter at position `i`, and pass
numbers, alone or in arrays that are spread. Then every number that is passed by an
argument at `i` or later is among the elements of the parameter in the body that the
call enters. Where no argument before `i` is spread, these are all the actual arguments
from `i` on. -/
theorem rest_parameter_collects {sources : Sources} {p : Program}
    (hbuild : Program.build sources = .ok p) {bound : Nat} {targets : List NodeId}
    (h : Reached ⟨p, .standard, bound, targets⟩ asked s)
    {call callee : NodeId} {arguments : List NodeId} {optional : Bool}
    (hform : p.arena.form call = .call callee arguments optional)
    (hcall : ⟨.evaluate, .ofNode call env⟩ ∈ asked) {invoked : List Target}
    (hinvoked : s.result (Rule.meaning s.world.depthLimit (.targets callee env)) = some invoked)
    {f : NodeId} {outer : Env} (hmem : .function (.ofNode f outer) ∈ invoked)
    (hdepth : outer.depth = p.arena.depth f + 1) (htarget : f ∉ targets)
    {name : Option NodeId} {params : List NodeId} {body : NodeId} {flags : FunctionFlags}
    (hf : p.arena.form f = .function name params body flags) {i : Nat} {rest b : NodeId}
    (hi : params[i]? = some rest) (hrest : p.arena.form rest = .rest b)
    {id : DeclId} {n : NodeId} (hid : (p.scopes.decl id).binding = b)
    (hn : n ∈ p.scopes.referencesOf id)
    (hasked : ⟨.evaluate, ⟨.pick n none, outer.cons (.push call env.head bound)⟩⟩ ∈ asked)
    {actuals : List Arena.Actual} (hactuals : p.arena.actuals? arguments = some actuals)
    (hnumbers : ∀ actual ∈ actuals, ∃ text, p.arena.form actual.value = .number text) :
    ∃ values elements,
      s.Solved ⟨.evaluate, .ofNode n (outer.cons (.push call env.head bound))⟩ values ∧
      s.result (Rule.meaning s.world.depthLimit (.elements values none)) = some elements ∧
      (∀ late, p.arena.actuals? (arguments.drop i) = some late →
        ∀ actual ∈ late, .ofNode actual.value env ∈ elements) ∧
      ((∀ x ∈ arguments.take i, (p.arena.form x).isSpread = false) →
        ∀ j actual, i ≤ j → actuals[j]? = some actual → .ofNode actual.value env ∈ elements) := by
  have hw : World.Sound ⟨p, .standard, bound, targets⟩ := .of_build hbuild
  have hforest : p.arena.Forest := hw.built.parsed.forest
  have hparam := List.mem_of_getElem? hi
  have hbody : (outer.cons (.push call env.head bound)).depth = p.arena.depth f + 2 :=
    congrArg (· + 1) hdepth
  -- the elements of the parameter, as they were asked for
  obtain ⟨picked, hpicked⟩ := h.exists_solved hw hasked (fun hkind => by cases hkind)
  obtain ⟨elements, helements, -⟩ := h.comes hw hpicked
  obtain ⟨values, hvalues, helements⟩ := Rule.Comes.bind helements
  refine ⟨values, elements, hvalues.ask, h.result_eq helements, ?_⟩
  -- the call is on record where it enters the body, so its arguments are a value there
  have hlist : ⟨.arguments call i, env⟩ ∈ values := by
    obtain ⟨result, hresult⟩ := h.exists_solved hw hcall (fun hkind => by cases hkind)
    obtain ⟨own, hown, -⟩ := h.comes hw hresult
    change Rule.Comes s.Grants _ (Rule.evaluateNode _ call env) own at hown
    unfold Rule.evaluateNode at hown
    rw [Rule.comes_bind_formOf, hform] at hown
    obtain ⟨found, hfound, hcalls⟩ := hown.callValues
    cases hinvoked.symm.trans (h.result_eq hfound)
    obtain ⟨part, happly, -⟩ := hcalls f outer hmem
    obtain ⟨hcallers, -, -⟩ := happly.apply
    obtain ⟨callers, hsolved, hrecorded⟩ := hcallers (by simp)
    obtain ⟨list, hlist, hsub⟩ := values_of_origin hw h hn hvalues.ask fun origins horigins => by
      obtain ⟨part, hcomes, hsub⟩ := passed_of_recorded hw h hf hi
        (Arena.patternRoot_of_rest hforest hf hparam hrest)
        (.part .self (by rw [Arena.patternParts, hrest]; exact .head _))
        (show _ = true by rw [hrest]) hid hn htarget hbody hsolved
        (hrecorded _ (PowerSet.mem_singleton.mpr rfl)) horigins
      cases hcomes.pure
      exact hsub _ (PowerSet.mem_singleton.mpr rfl)
    obtain ⟨own, hown, hincluded⟩ := h.comes hw hlist
    cases hown.pure
    exact hsub _ (hincluded _ (PowerSet.mem_singleton.mpr rfl))
  have helement : ∀ late, p.arena.actuals? (arguments.drop i) = some late →
      (∀ actual ∈ late, ∃ text, p.arena.form actual.value = .number text) →
      ∀ actual ∈ late, .ofNode actual.value env ∈ elements := by
    intro late hlate hnumbers actual hactual
    obtain ⟨depth, hlimit⟩ := s.world.exists_depthLimit
    rw [hlimit] at helements
    obtain ⟨part, hpart, hsub⟩ := Rule.Comes.unionOver helements hlist
    obtain ⟨found, hfound, hpart⟩ := Rule.Comes.bind hpart
    cases hfound.done (Rule.run_argumentsOf (by rw [hform]; rfl))
    obtain ⟨text, htext⟩ := hnumbers actual hactual
    exact hsub _ (mem_argumentElementsFrom hw h hlate hactual htext hpart)
  obtain ⟨early, late, hearly, hlate, rfl⟩ :=
    Arena.actuals?_append ((List.take_append_drop i arguments).symm ▸ hactuals)
  have hlater := helement late hlate fun actual hactual =>
    hnumbers actual (List.mem_append_right _ hactual)
  refine ⟨fun found hfound => ?_, fun hplain j actual hj hactual => ?_⟩
  · cases hlate.symm.trans hfound
    exact hlater
  · rw [Arena.actuals?_of_plain hplain] at hearly
    cases hearly
    rw [List.getElem?_append_right (by simp; omega)] at hactual
    exact hlater actual (List.mem_of_getElem? hactual)

/-- A call that passes one number to a plain parameter, and two to the rest. -/
def restCall : Sources :=
  [("main", "function f(a, ...r) \x7b r; \x7d\nf(1, 2, ...[3]);")]

def restBody (call : NodeId) : Env := Env.root.cons (.push call Env.root.head 1)

theorem rest_parameter_collects_two :
    ∃ p s values elements, Program.build restCall = .ok p ∧
      Reached ⟨p, .standard, 1, []⟩
        [⟨.evaluate, .ofNode 14 .root⟩, ⟨.evaluate, ⟨.pick 4 none, restBody 14⟩⟩] s ∧
      p.arena.form 14 = .call 8 [9, 10, 13] false ∧
      p.arena.actuals? [9, 10, 13] = some [⟨9, .node 9⟩, ⟨10, .node 10⟩, ⟨11, .pick 12 none⟩] ∧
      s.Solved ⟨.evaluate, .ofNode 4 (restBody 14)⟩ values ∧
      s.result (Rule.meaning s.world.depthLimit (.elements values none)) = some elements ∧
      .ofNode 10 .root ∈ elements ∧ .ofNode 11 .root ∈ elements := by
  obtain ⟨p, s, hbuild, -, hs, hcall, hdepth, hf, hrest, hid, hn, hactuals, hone, htwo, hthree,
      invoked, hinvoked, hmem⟩ :=
    exists_reached restCall 1
      (fun _ => [⟨.evaluate, .ofNode 14 .root⟩, ⟨.evaluate, ⟨.pick 4 none, restBody 14⟩⟩])
      (fun p s => p.arena.form 14 = .call 8 [9, 10, 13] false ∧ p.arena.depth 7 = 0 ∧
        p.arena.form 7 = .function (some 0) [1, 3] 6 ⟨false, false, true, false⟩ ∧
        p.arena.form 3 = .rest 2 ∧ (p.scopes.decl 2).binding = 2 ∧
        4 ∈ p.scopes.referencesOf 2 ∧
        p.arena.actuals? [9, 10, 13] =
          some [⟨9, .node 9⟩, ⟨10, .node 10⟩, ⟨11, .pick 12 none⟩] ∧
        p.arena.form 9 = .number 3 ∧ p.arena.form 10 = .number 4 ∧ p.arena.form 11 = .number 5 ∧
        ∃ found ∈ s.result (Rule.meaning s.world.depthLimit (.targets 8 .root)),
          .function (.ofNode 7 .root) ∈ found) (by decide +kernel)
  obtain ⟨values, elements, hvalues, helements, -, hlater⟩ := rest_parameter_collects hbuild hs
    hcall (.head _) hinvoked hmem (by rw [hdepth]; rfl) List.not_mem_nil hf
    (i := 1) rfl hrest hid hn (.tail _ (.head _)) hactuals (by
      intro actual hactual
      obtain rfl | rfl | rfl : actual = ⟨9, .node 9⟩ ∨ actual = ⟨10, .node 10⟩ ∨
          actual = ⟨11, .pick 12 none⟩ := by simpa using hactual
      · exact ⟨3, hone⟩
      · exact ⟨4, htwo⟩
      · exact ⟨5, hthree⟩)
  have hplain : ∀ x ∈ [9, 10, 13].take 1, (p.arena.form x).isSpread = false := by
    simp [hone, Form.isSpread]
  exact ⟨p, s, values, elements, hbuild, hs, hcall, hactuals, hvalues, helements,
    hlater hplain 1 _ (by decide) rfl, hlater hplain 2 _ (by decide) rfl⟩

def restSpread : Sources :=
  [("main", "function f(a, ...r) \x7b r; \x7d\nf(...[1, 2]);")]

/-- The spread stands before the position of the rest parameter. The second number that
it passes is not found there. -/
theorem rest_parameter_misses_spread :
    ∃ p s values elements, Program.build restSpread = .ok p ∧
      Reached ⟨p, .standard, 1, []⟩
        [⟨.evaluate, .ofNode 13 .root⟩, ⟨.evaluate, ⟨.pick 4 none, restBody 13⟩⟩] s ∧
      p.arena.form 13 = .call 8 [12] false ∧
      p.arena.actuals? [12] = some [⟨9, .pick 11 none⟩, ⟨10, .pick 11 none⟩] ∧
      s.Solved ⟨.evaluate, .ofNode 4 (restBody 13)⟩ values ∧
      ⟨.arguments 13 1, .root⟩ ∈ values ∧
      s.result (Rule.meaning s.world.depthLimit (.elements values none)) = some elements ∧
      .ofNode 10 .root ∉ elements := by
  obtain ⟨p, s, hbuild, hw, hs, hcall, hactuals, hlist, elements, helements, hmissed⟩ :=
    exists_reached restSpread 1
      (fun _ => [⟨.evaluate, .ofNode 13 .root⟩, ⟨.evaluate, ⟨.pick 4 none, restBody 13⟩⟩])
      (fun p s => p.arena.form 13 = .call 8 [12] false ∧
        p.arena.actuals? [12] = some [⟨9, .pick 11 none⟩, ⟨10, .pick 11 none⟩] ∧
        ⟨.arguments 13 1, .root⟩ ∈ s.solver.assignment ⟨.evaluate, .ofNode 4 (restBody 13)⟩ ∧
        ∃ elements ∈ s.result (Rule.meaning s.world.depthLimit (.elements
          (s.solver.assignment ⟨.evaluate, .ofNode 4 (restBody 13)⟩) none)),
          .ofNode 10 .root ∉ elements) (by decide +kernel)
  -- the answer for the parameter was read for the answer for its elements
  have hpicked := hs.solved_assignment hw (.tail _ (.head _)) (fun hkind => by cases hkind)
  obtain ⟨_, hcomes, -⟩ := hs.comes hw hpicked
  obtain ⟨values, hvalues, -⟩ := Rule.Comes.bind hcomes
  rw [(hs.touched_of_solved _ _ hvalues.ask).2] at helements hlist
  exact ⟨p, s, values, elements, hbuild, hs, hcall, hactuals, hvalues.ask, hlist, helements,
    hmissed⟩

end Session

end ValueFlow
