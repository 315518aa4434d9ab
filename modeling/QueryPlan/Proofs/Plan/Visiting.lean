import QueryPlan.Plan.Visit
import QueryPlan.Proofs.Plan.Parts

/-!
Visiting a plan against going through the list of its nodes from the top down. Main statement: the
calls are made on the nodes in preorder, each on the subplan as it was in the beginning; a failure
at one of them is the last call there is, is what the visit fails with, and leaves all later nodes
as they were; and without a failure every node is called on once.
-/
namespace QueryPlan

namespace NodeAction
variable {σ ε : Type}

inductive Succeeds (action : NodeAction σ ε) : List Plan → σ → σ → Prop
  | nil {s} : Succeeds action [] s s
  | cons {p q ps s s' t} (first : action.run p s = ⟨q, s', none⟩)
      (rest : Succeeds action ps s' t) : Succeeds action (p :: ps) s t

/-- Of the calls on the nodes one after another the one with number `n`, counted from 0, is the
first to fail. -/
def FailsAt (action : NodeAction σ ε) (nodes : List Plan) (s : σ) (n : Nat) (e : ε) : Prop :=
  ∃ node t, nodes[n]? = some node ∧ action.Succeeds (nodes.take n) s t ∧
    ∃ left u, action.run node t = ⟨left, u, some e⟩

def NeverFails (action : NodeAction σ ε) (nodes : List Plan) (s : σ) : Prop :=
  ∃ t, action.Succeeds nodes s t

def logged (action : NodeAction σ ε) : NodeAction (σ × List Plan) ε where
  run p state :=
    let visited := action.run p state.1
    ⟨visited.value, (visited.state, state.2 ++ [p]), visited.failure⟩
  keeps p state := action.keeps p state.1

/-- Calls on nodes one after another up to the first failure. What stands at each place in the end
is listed too: after a failure it is what stood there before. -/
inductive Walk (action : NodeAction σ ε) : List Plan → List Plan → σ → σ → Option ε → Prop
  | done {s} : Walk action [] [] s s none
  | stop {p q rest s t e} (failed : action.run p s = ⟨q, t, some e⟩) :
      Walk action (p :: rest) (q :: rest) s t (some e)
  | step {p q q' ps qs s s' t failure} (first : action.run p s = ⟨q', s', none⟩)
      (rest : Walk action ps qs s' t failure) : Walk action (p :: ps) (q :: qs) s t failure

variable {action : NodeAction σ ε} {ps qs ps' qs' nodes after : List Plan} {s t u : σ} {e : ε}
  {failure : Option ε} {n : Nat}

theorem Walk.append (first : action.Walk ps qs s t none)
    (second : action.Walk ps' qs' t u failure) :
    action.Walk (ps ++ ps') (qs ++ qs') s u failure := by
  generalize none_eq : (none : Option ε) = ended at first
  induction first with
  | done => exact second
  | stop failed => cases none_eq
  | step once rest ih => exact .step once (ih second none_eq)

theorem Walk.append_rest (first : action.Walk ps qs s t (some e)) (rest : List Plan) :
    action.Walk (ps ++ rest) (qs ++ rest) s t (some e) := by
  generalize some_eq : some e = ended at first ⊢
  induction first with
  | done => cases some_eq
  | stop failed => exact .stop failed
  | step once rest ih => exact .step once (ih some_eq)

theorem succeeds_cons_iff {p q : Plan} (first : action.run p s = ⟨q, t, none⟩) :
    action.Succeeds (p :: ps) s u ↔ action.Succeeds ps t u := by
  constructor
  · intro calls
    cases calls with
    | cons once rest =>
      rw [first] at once
      cases once
      exact rest
  · exact .cons first

theorem not_succeeds_of_failed {p q : Plan} (failed : action.run p s = ⟨q, t, some e⟩) :
    ¬ action.Succeeds (p :: ps) s u := by
  intro calls
  cases calls with
  | cons once rest =>
    rw [failed] at once
    cases once

theorem not_failsAt_nil : ¬ action.FailsAt [] s n e := by
  rintro ⟨node, t, found, _⟩
  cases found

theorem failsAt_cons_zero {p : Plan} :
    action.FailsAt (p :: ps) s 0 e ↔ ∃ q t, action.run p s = ⟨q, t, some e⟩ := by
  constructor
  · rintro ⟨node, t, found, none, failed⟩
    cases found
    cases none
    exact failed
  · intro failed
    exact ⟨p, s, rfl, .nil, failed⟩

theorem failsAt_cons_succ {p q : Plan} (first : action.run p s = ⟨q, t, none⟩) :
    action.FailsAt (p :: ps) s (n + 1) e ↔ action.FailsAt ps t n e := by
  simp only [FailsAt, List.getElem?_cons_succ, List.take_succ_cons, succeeds_cons_iff first]

theorem not_failsAt_of_failed {p q : Plan} {e' : ε} (failed : action.run p s = ⟨q, t, some e'⟩) :
    ¬ action.FailsAt (p :: ps) s (n + 1) e := by
  rintro ⟨node, u, found, calls, _⟩
  exact not_succeeds_of_failed failed calls

theorem Walk.of_failsAt (walk : action.Walk nodes after s t failure)
    (fails : action.FailsAt nodes s n e) :
    failure = some e ∧ after.drop (n + 1) = nodes.drop (n + 1) := by
  induction walk generalizing n with
  | done => exact (not_failsAt_nil fails).elim
  | stop failed =>
    cases n with
    | zero =>
      obtain ⟨q, u, again⟩ := failsAt_cons_zero.1 fails
      rw [failed] at again
      cases again
      exact ⟨rfl, rfl⟩
    | succ n => exact (not_failsAt_of_failed failed fails).elim
  | step first rest ih =>
    cases n with
    | zero =>
      obtain ⟨q, u, failed⟩ := failsAt_cons_zero.1 fails
      rw [first] at failed
      cases failed
    | succ n => exact ih ((failsAt_cons_succ first).1 fails)

theorem Walk.exists_failsAt (walk : action.Walk nodes after s t (some e)) :
    ∃ n, action.FailsAt nodes s n e := by
  generalize some_eq : some e = ended at walk
  induction walk with
  | done => cases some_eq
  | stop failed =>
    cases some_eq
    exact ⟨0, failsAt_cons_zero.2 ⟨_, _, failed⟩⟩
  | step first rest ih =>
    obtain ⟨n, fails⟩ := ih some_eq
    exact ⟨n + 1, (failsAt_cons_succ first).2 fails⟩

theorem Walk.succeeds (walk : action.Walk nodes after s t none) : action.Succeeds nodes s t := by
  generalize none_eq : (none : Option ε) = ended at walk
  induction walk with
  | done => exact .nil
  | stop failed => cases none_eq
  | step first rest ih => exact .cons first (ih none_eq)

theorem Walk.of_succeeds (walk : action.Walk nodes after s t failure)
    (calls : action.Succeeds nodes s u) : failure = none := by
  induction walk with
  | done => rfl
  | stop failed => exact (not_succeeds_of_failed failed calls).elim
  | step first rest ih => exact ih ((succeeds_cons_iff first).1 calls)

theorem run_logged {p q : Plan} {log : List Plan} (called : action.run p s = ⟨q, t, failure⟩) :
    action.logged.run p (s, log) = ⟨q, (t, log ++ [p]), failure⟩ := by
  simp only [logged, called]

theorem run_of_logged {p q : Plan} {state state' : σ × List Plan}
    (called : action.logged.run p state = ⟨q, state', failure⟩) :
    action.run p state.1 = ⟨q, state'.1, failure⟩ ∧ state'.2 = state.2 ++ [p] := by
  cases called
  exact ⟨rfl, rfl⟩

theorem Walk.log_of_failsAt {state state' : σ × List Plan}
    (walk : action.logged.Walk nodes after state state' failure)
    (fails : action.FailsAt nodes state.1 n e) : state'.2 = state.2 ++ nodes.take (n + 1) := by
  induction walk generalizing n with
  | done => exact (not_failsAt_nil fails).elim
  | stop failed =>
    obtain ⟨failed, log⟩ := run_of_logged failed
    cases n with
    | zero => exact log
    | succ n => exact (not_failsAt_of_failed failed fails).elim
  | step first rest ih =>
    obtain ⟨first, log⟩ := run_of_logged first
    cases n with
    | zero =>
      obtain ⟨q, u, failed⟩ := failsAt_cons_zero.1 fails
      rw [first] at failed
      cases failed
    | succ n =>
      rw [ih ((failsAt_cons_succ first).1 fails), log, List.append_assoc]
      rfl

theorem Walk.log_of_succeeds {state state' : σ × List Plan}
    (walk : action.logged.Walk nodes after state state' failure)
    (calls : action.Succeeds nodes state.1 u) : state'.2 = state.2 ++ nodes := by
  induction walk with
  | done => rw [List.append_nil]
  | stop failed => exact (not_succeeds_of_failed (run_of_logged failed).1 calls).elim
  | step first rest ih =>
    obtain ⟨first, log⟩ := run_of_logged first
    rw [ih ((succeeds_cons_iff first).1 calls), log, List.append_assoc]
    rfl

end NodeAction

namespace Plan
variable {σ ε : Type} {action : NodeAction σ ε} {p q : Plan} {s t : σ} {e : ε}
  {failure : Option ε}

theorem visitWith_failed (failed : action.run p s = ⟨q, t, some e⟩) :
    p.visitWith action s = ⟨q, t, some e⟩ := by
  rw [visitWith]
  split
  · rename_i found
    rw [← failed, found]
  · rename_i found
    rw [failed] at found
    cases found

theorem visitWith_called (called : action.run p s = ⟨q, t, none⟩) :
    p.visitWith action s =
      let (q, next, failure) := q.visitChildren (fun c _ (next, failure) =>
        match failure with
        | some e => (c, next, some e)
        | none =>
          let below := c.visitWith action next
          (below.value, below.state, below.failure)) (t, none)
      ⟨q, next, failure⟩ := by
  rw [visitWith]
  split
  · rename_i found
    rw [called] at found
    cases found
  · rename_i found
    rw [called] at found
    cases found
    rfl

theorem visitWith_get {r r' : Relation} (called : action.run (get r) s = ⟨get r', t, none⟩) :
    (get r).visitWith action s = ⟨get r', t, none⟩ := by
  rw [visitWith_called called]
  rfl

theorem visitWith_unary {o o' : Operator}
    (called : action.run (unary o p) s = ⟨unary o' p, t, none⟩) :
    (unary o p).visitWith action s = (p.visitWith action t).map (unary o') := by
  rw [visitWith_called called]
  rfl

theorem visitWith_join {j j' : Join}
    (called : action.run (join j p q) s = ⟨join j' p q, t, none⟩) :
    (join j p q).visitWith action s =
      match p.visitWith action t with
      | ⟨p', u, some e⟩ => ⟨join j' p' q, u, some e⟩
      | ⟨p', u, none⟩ => (q.visitWith action u).map (join j' p') := by
  rw [visitWith_called called]
  rcases left : p.visitWith action t with ⟨p', u, _ | e⟩ <;> simp only [visitChildren, left]
  rfl

theorem children_of_called (called : action.run p s = ⟨q, t, failure⟩) :
    q.children = p.children := by
  rw [← action.keeps p s, called]

theorem get_of_called {r : Relation} (called : action.run (get r) s = ⟨q, t, failure⟩) :
    ∃ r', q = get r' := by
  have same := children_of_called called
  cases q with
  | get r' => exact ⟨r', rfl⟩
  | _ => cases same

theorem unary_of_called {o : Operator} (called : action.run (unary o p) s = ⟨q, t, failure⟩) :
    ∃ o', q = unary o' p := by
  have same := children_of_called called
  cases q with
  | unary o' p' =>
    cases same
    exact ⟨o', rfl⟩
  | _ => cases same

theorem join_of_called {j : Join} {l r : Plan}
    (called : action.run (join j l r) s = ⟨q, t, failure⟩) : ∃ j', q = join j' l r := by
  have same := children_of_called called
  cases q with
  | join j' l' r' =>
    cases same
    exact ⟨j', rfl⟩
  | _ => cases same

def Walks (action : NodeAction σ ε) (p : Plan) (s : σ) (visited : Visited Plan σ ε) : Prop :=
  action.Walk p.preorder visited.value.preorder s visited.state visited.failure

theorem walks_of_failed (failed : action.run p s = ⟨q, t, some e⟩) :
    p.Walks action s (p.visitWith action s) := by
  rw [Walks, visitWith_failed failed, preorder_eq q, children_of_called failed, preorder_eq p]
  exact .stop failed

theorem walks_visitWith (action : NodeAction σ ε) (p : Plan) (s : σ) :
    p.Walks action s (p.visitWith action s) := by
  induction p generalizing s with
  | get r =>
    rcases called : action.run (get r) s with ⟨left, t, _ | e⟩
    · obtain ⟨r', rfl⟩ := get_of_called called
      rw [Walks, visitWith_get called]
      exact .step called .done
    · exact walks_of_failed called
  | unary o p ih =>
    rcases called : action.run (unary o p) s with ⟨left, t, _ | e⟩
    · obtain ⟨o', rfl⟩ := unary_of_called called
      rw [Walks, visitWith_unary called]
      exact .step called (ih t)
    · exact walks_of_failed called
  | join j l r ihl ihr =>
    rcases called : action.run (join j l r) s with ⟨left, t, _ | e⟩
    · obtain ⟨j', rfl⟩ := join_of_called called
      rw [Walks, visitWith_join called]
      have first := ihl t
      rcases visited : l.visitWith action t with ⟨l', u, _ | e⟩
      · rw [visited] at first
        exact .step called (first.append (ihr u))
      · rw [visited] at first
        exact .step called (first.append_rest r.preorder)
    · exact walks_of_failed called

theorem failsAt_or_neverFails (p : Plan) (s : σ) :
    (∃ n e, action.FailsAt p.preorder s n e) ∨ action.NeverFails p.preorder s := by
  have walk := walks_visitWith action p s
  cases ended : (p.visitWith action s).failure with
  | none =>
    rw [Walks, ended] at walk
    exact Or.inr ⟨_, walk.succeeds⟩
  | some e =>
    rw [Walks, ended] at walk
    obtain ⟨n, fails⟩ := walk.exists_failsAt
    exact Or.inl ⟨n, e, fails⟩

open NodeAction in
theorem exists_visitWith_logged (action : NodeAction σ ε) (p : Plan) (s : σ) (log : List Plan) :
    ∃ calls, p.visitWith action.logged (s, log) =
      ⟨(p.visitWith action s).value, ((p.visitWith action s).state, calls),
        (p.visitWith action s).failure⟩ := by
  induction p generalizing s log with
  | get r =>
    rcases called : action.run (get r) s with ⟨left, t, _ | e⟩
    · obtain ⟨r', rfl⟩ := get_of_called called
      exact ⟨_, by rw [visitWith_get (run_logged called), visitWith_get called]⟩
    · exact ⟨_, by rw [visitWith_failed (run_logged called), visitWith_failed called]⟩
  | unary o p ih =>
    rcases called : action.run (unary o p) s with ⟨left, t, _ | e⟩
    · obtain ⟨o', rfl⟩ := unary_of_called called
      obtain ⟨calls, below⟩ := ih t (log ++ [unary o p])
      rw [visitWith_unary (run_logged called), visitWith_unary called, below]
      exact ⟨calls, rfl⟩
    · exact ⟨_, by rw [visitWith_failed (run_logged called), visitWith_failed called]⟩
  | join j l r ihl ihr =>
    rcases called : action.run (join j l r) s with ⟨left, t, _ | e⟩
    · obtain ⟨j', rfl⟩ := join_of_called called
      obtain ⟨calls, first⟩ := ihl t (log ++ [join j l r])
      rw [visitWith_join (run_logged called), visitWith_join called, first]
      rcases l.visitWith action t with ⟨l', u, _ | e⟩
      · obtain ⟨more, second⟩ := ihr u calls
        exact ⟨more, by simp only [second]; rfl⟩
      · exact ⟨calls, rfl⟩
    · exact ⟨_, by rw [visitWith_failed (run_logged called), visitWith_failed called]⟩

/-- One of the two cases holds of every plan and every state to begin with. The record is kept
beside the same visit. -/
theorem visit_stops_at_failure (action : NodeAction σ ε) (p : Plan) (s : σ) :
    let visited := p.visitWith action s
    let recorded (calls : List Plan) : Visited Plan (σ × List Plan) ε :=
      ⟨visited.value, (visited.state, calls), visited.failure⟩
    (∀ n e, action.FailsAt p.preorder s n e →
      p.visitWith action.logged (s, []) = recorded (p.preorder.take (n + 1)) ∧
        visited.failure = some e ∧
        visited.value.preorder.drop (n + 1) = p.preorder.drop (n + 1)) ∧
      (action.NeverFails p.preorder s →
        p.visitWith action.logged (s, []) = recorded p.preorder ∧ visited.failure = none) ∧
      ((∃ n e, action.FailsAt p.preorder s n e) ∨ action.NeverFails p.preorder s) := by
  intro visited recorded
  have walk := walks_visitWith action p s
  have logged := walks_visitWith action.logged p (s, [])
  obtain ⟨calls, run⟩ := exists_visitWith_logged action p s []
  rw [run] at logged ⊢
  refine ⟨?_, ?_, failsAt_or_neverFails p s⟩
  · intro n e fails
    obtain ⟨failed, rest⟩ := walk.of_failsAt fails
    refine ⟨?_, failed, rest⟩
    rw [show calls = p.preorder.take (n + 1) from logged.log_of_failsAt fails]
  · rintro ⟨t, succeeds⟩
    refine ⟨?_, walk.of_succeeds succeeds⟩
    rw [show calls = p.preorder from logged.log_of_succeeds succeeds]

namespace Sample

def counting : NodeAction Nat String where
  run p count :=
    if count = 2 then ⟨p, count, some "third"⟩
    else
      match p with
      | .get r => ⟨.get ⟨r.name ++ "@" ++ toString count, r.output⟩, count + 1, none⟩
      | other => ⟨other, count + 1, none⟩
  keeps p count := by
    split
    · rfl
    · cases p <;> rfl

def relation (name : String) : Plan := .get ⟨name, []⟩

def joined : Plan :=
  .join ⟨.cross, none⟩ (.join ⟨.cross, none⟩ (relation "a") (relation "b")) (relation "c")

end Sample

open Sample in
/-- The failure at the leftmost relation stops both joins: neither of the others is renamed. -/
theorem visit_stops_at_failure_left :
    counting.FailsAt joined.preorder 0 2 "third" ∧
      (joined.visitWith counting 0).failure = some "third" ∧
      (joined.visitWith counting 0).value.preorder.drop 3 = [relation "b", relation "c"] := by
  have fails : counting.FailsAt joined.preorder 0 2 "third" :=
    ⟨relation "a", 2, rfl, .cons rfl (.cons rfl .nil), relation "a", 2, rfl⟩
  obtain ⟨_, failed, rest⟩ := (visit_stops_at_failure counting joined 0).1 2 "third" fails
  exact ⟨fails, failed, rest⟩

end Plan
end QueryPlan
