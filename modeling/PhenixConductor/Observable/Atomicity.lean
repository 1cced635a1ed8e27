import PhenixConductor.Observable.Matching

/-! # Atomicity of failed transactions

A failed transaction leaves no trace as long as live subscriptions have ids of their own.
-/
namespace PhenixConductor.Observable
open Contract Collections
open SubscriptionNode (remove)
open ObservableStore (admitSubscription locked step transaction unsubscribe)

variable {H R : Type}

/-! ## The id counter -/

/-! ## Failure leaves no trace -/

/-- In a store whose subscriptions got ids of their own, a transaction that
returns an error leaves the whole state as it was and calls no handler. -/
theorem transaction_atomic (calls : List (StoreCall H R)) (hfresh : FreshRun calls)
    (roots : List ValueId) (apply : TransactionScript R) (error : ObservableError)
    (h : ((ObservableStore.after calls).transaction roots apply).2.1 = .error (.error error)) :
    ((ObservableStore.after calls).transaction roots apply).1 = ObservableStore.after calls ∧
      ((ObservableStore.after calls).transaction roots apply).2.2 = [] := by
  have hi := hfresh.indexed
  generalize ObservableStore.after calls = store at h hi ⊢
  have ho := store.transactionLocked_outcome roots apply
  unfold transaction at h ⊢
  generalize store.transactionLocked roots apply = result at h ho ⊢
  obtain ⟨store',outcome⟩ := result
  cases ho with
  | unchanged failure => exact ⟨rfl,rfl⟩
  | spoiled _ hf hc _ =>
    have hrun : (apply.run (store.start roots)).1.state.Indexed :=
      StoreState.Indexed.performs (show (store.start roots).state.Indexed from hi)
        (apply.run_performs _)
    exact absurd (hrun.finish_same hf) hc
  | panicked _ => simp at h
  | committed _ _ _ _ => simp at h

/-! ## The stopped counter -/

def rootA : ValueId := ⟨"a",by decide⟩
def rootB : ValueId := ⟨"b",by decide⟩

def watch (root : ValueId) (mode : ObservationMode) : ObservationSpec :=
  ⟨⟨root,[]⟩,.exact,mode,.none⟩

def number (root : ValueId) (policy : SnapshotPolicy) : ObservableRegistration :=
  ⟨root,⟨"p",by decide⟩,.u64,policy,.u64 1⟩

/-- Write to `a`, then fail. -/
def writeAndFail : TransactionScript Unit :=
  .call (.replace rootA [] (.u64 2)) fun _ => .done (.error (.unknownValue rootB))

/-- Both roots hold a number; only `b` copies snapshots. -/
def twoNumbers : List (StoreCall Unit Unit) :=
  [.register (number rootA .currentOnly),.register (number rootB .copyOnChange)]

/-- A failing closure after one successful write. -/
theorem transaction_atomic_closure_error :
    ((ObservableStore.after twoNumbers).transaction [rootA] writeAndFail).1 =
      ObservableStore.after twoNumbers :=
  (transaction_atomic twoNumbers ⟨trivial,trivial,trivial⟩ [rootA] writeAndFail
    (.unknownValue rootB) (by rfl)).1

/-- `n` subscriptions to `a` that were taken back at once. -/
def churn (n : ℕ) : List (StoreCall Unit Unit) :=
  (List.range n).flatMap fun i =>
    [.subscribe (watch rootA .diff) (),.unsubscribe ⟨i + 1,i + 1⟩]

/-- Two subscriptions that share the last id: the trie of `a` keeps the first
one, the map of subscriptions holds the second one. -/
def collision : List (StoreCall Unit Unit) :=
  twoNumbers ++ churn (u64Max - 1) ++
    [.subscribe (watch rootA .diff) (),.subscribe (watch rootB .full) ()]

/-- The two roots when the next id is `n`. -/
def churned (n : ℕ) : ObservableStore Unit :=
  ⟨{ (ObservableStore.after twoNumbers).state with nextObservation := n, nextGeneration := n },
    false⟩

theorem churned_subscribe (n : ℕ) :
    (churned n).step (.subscribe (watch rootA .diff) () : StoreCall Unit Unit) =
      ⟨admitSubscription (watch rootA .diff) () (churned n).state,false⟩ :=
  rfl

theorem churned_unsubscribe (n : ℕ) :
    step
      ⟨admitSubscription (watch rootA .diff) () (churned n).state,false⟩
      (.unsubscribe ⟨n,n⟩ : StoreCall Unit Unit) = churned (saturatingSucc n) := by
  have hidx : (churned n).state.indexes = .empty := rfl
  have hsub : (churned n).state.subscriptions = .empty := rfl
  have hempty : (remove n .exact (.insert n .exact .empty []) []).isEmpty = true := by
    simp [remove, SubscriptionNode.insert, SubscriptionNode.empty,
      SubscriptionNode.isEmpty, BTreeMap.empty]
  have herase {K V : Type} [LinearOrder K] (k : K) (v : V) :
      (BTreeMap.empty.insert k v).erase k = .empty :=
    BTreeMap.erase_insert_of_notMem _ _ List.not_mem_nil
  have hopen : (churned n).state.closed = false := rfl
  have hobs : (churned n).state.nextObservation = n := rfl
  have hgen : (churned n).state.nextGeneration = n := rfl
  simp [step, unsubscribe, locked,
    ObservableStore.unsubscribeBody, admitSubscription, ensureOpen, hopen,
    ObservableStore.dropSubscription, watch, hidx, hsub, hobs, hgen, hempty, herase]
  rfl

/-- Coming and going only moves the counters. -/
theorem after_churn {n : ℕ} (h : n < u64Max) :
    ObservableStore.after (twoNumbers ++ churn n) = churned (n + 1) := by
  induction n with
  | zero => rfl
  | succ n ih =>
    have hs : saturatingSucc (n + 1) = n + 1 + 1 := min_eq_left (by omega)
    have hc : churn (n + 1) = churn n ++
        [.subscribe (watch rootA .diff) (),.unsubscribe ⟨n + 1,n + 1⟩] := by
      simp [churn, List.range_succ]
    rw [hc, ← List.append_assoc, ObservableStore.after, runAll_append]
    change runAll _ (ObservableStore.after (twoNumbers ++ churn n)) _ = _
    rw [ih (by omega), runAll_cons, runAll_cons, runAll_nil, churned_subscribe,
      churned_unsubscribe, hs]

theorem after_collision : ObservableStore.after collision =
    runAll step (churned u64Max)
      ([.subscribe (watch rootA .diff) (),.subscribe (watch rootB .full) ()] :
        List (StoreCall Unit Unit)) := by
  have hlast : ObservableStore.after (twoNumbers ++ churn (u64Max - 1)) = churned u64Max := by
    rw [after_churn (by decide), Nat.sub_add_cancel (by decide)]
  rw [← hlast]
  exact runAll_append _ _ _ _

/-- The transaction that writes `a` fails for the snapshot that the other
subscription wants, and a version and a commit id are gone. -/
theorem transaction_not_atomic :
    let store := ObservableStore.after collision
    let outcome := store.transaction [rootA]
      (.call (.replace rootA [] (.u64 2)) fun result => .done result)
    outcome.2.1 = .error (.error (.unsupportedSnapshotPolicy rootA .currentOnly .full .none)) ∧
      store.state.nextCommit = 1 ∧ outcome.1.state.nextCommit = 2 ∧
      (store.state.values.get? rootA).map RegisteredValue.version = some 0 ∧
      (outcome.1.state.values.get? rootA).map RegisteredValue.version = some 1 := by
  rw [after_collision]
  refine ⟨rfl,rfl,rfl,rfl,rfl⟩

end PhenixConductor.Observable
