import Mathlib.Data.List.Basic
import Mathlib.Algebra.Order.BigOperators.Group.List
import Mathlib.Algebra.GroupWithZero.Nat

/-!
# Batching a stream

Messages come one by one, each with an event or without one; the events are buffered, and the buffer
is handed on as a batch whenever it has `batch` events.  What is left makes the last batch.

    (batches batch es).flatten = the events of es                                 (flatten_batches)
    0 < batch, or every message has an event →
      no batch is empty or longer than max batch 1, and there are ⌈m / max batch 1⌉   (batches_full)
    batch = 0 and some message has no event → an empty batch is handed on          (nil_mem_batches)
-/

namespace Batching

variable {E : Type}

/-- The events not handed on yet, and the batches that were. -/
structure Buffer (E : Type) where
  buf : List E := []
  handed : List (List E) := []

/-- One message. -/
def feed (batch : Nat) (b : Buffer E) (e : Option E) : Buffer E :=
  let buf := b.buf ++ e.toList
  if batch ≤ buf.length then { buf := [], handed := b.handed ++ [buf] } else { b with buf }

/-- The rest, at the end of the stream. -/
def finish (b : Buffer E) : List (List E) := if b.buf = [] then b.handed else b.handed ++ [b.buf]

def batches (batch : Nat) (es : List (Option E)) : List (List E) := finish (es.foldl (feed batch) {})

theorem feed_events (batch : Nat) (b : Buffer E) (e : Option E) :
    (feed batch b e).handed.flatten ++ (feed batch b e).buf = b.handed.flatten ++ b.buf ++ e.toList := by
  unfold feed
  simp only
  split
  · simp
  · simp

theorem foldl_feed_events (batch : Nat) (es : List (Option E)) (b : Buffer E) :
    (es.foldl (feed batch) b).handed.flatten ++ (es.foldl (feed batch) b).buf =
      b.handed.flatten ++ b.buf ++ es.reduceOption := by
  induction es generalizing b with
  | nil => exact (List.append_nil _).symm
  | cons e es ih =>
    rw [List.foldl_cons, ih, feed_events, List.append_assoc]
    congr 1
    cases e with
    | none => rfl
    | some e => rfl

/-- Nothing is lost, repeated or moved. -/
theorem flatten_batches (batch : Nat) (es : List (Option E)) : (batches batch es).flatten = es.reduceOption := by
  have h := foldl_feed_events batch es {}
  unfold batches finish
  split
  · next hnil =>
    rw [hnil, List.append_nil] at h
    exact h
  · rw [List.flatten_append, List.flatten_singleton]
    exact h

/-- All batches so far are full, and the buffer is not. -/
structure Full (size : Nat) (b : Buffer E) : Prop where
  handed : ∀ c ∈ b.handed, c.length = size
  buf : b.buf.length < size

theorem feed_full {batch : Nat} {b : Buffer E} {e : Option E} (hb : Full (max batch 1) b)
    (he : 0 < batch ∨ e.isSome) : Full (max batch 1) (feed batch b e) := by
  have hlen : (b.buf ++ e.toList).length = b.buf.length + e.toList.length := List.length_append
  have hbuf := hb.buf
  unfold feed
  simp only
  split
  · next hge =>
    refine ⟨?_, by simp⟩
    intro c hc
    rcases List.mem_append.mp hc with hc | hc
    · exact hb.handed c hc
    · rw [List.mem_singleton.mp hc, hlen]
      rw [hlen] at hge
      cases e with
      | none =>
        have hpos : 0 < batch := he.resolve_right (by simp)
        simp only [Option.toList_none, List.length_nil] at hge ⊢
        omega
      | some e =>
        simp only [Option.toList_some, List.length_singleton] at hge ⊢
        omega
  · next hlt => exact ⟨hb.handed, by simp only; omega⟩

theorem foldl_feed_full {batch : Nat} {es : List (Option E)} {b : Buffer E} (hb : Full (max batch 1) b)
    (he : 0 < batch ∨ ∀ e ∈ es, e.isSome) : Full (max batch 1) (es.foldl (feed batch) b) := by
  induction es generalizing b with
  | nil => exact hb
  | cons e es ih =>
    rw [List.foldl_cons]
    apply ih
    · exact feed_full hb (he.imp_right fun h => h e List.mem_cons_self)
    · exact he.imp_right fun h e' he' => h e' (List.mem_cons_of_mem e he')

theorem sum_length_of_full {size : Nat} {cs : List (List E)} (h : ∀ c ∈ cs, c.length = size) :
    cs.flatten.length = cs.length * size := by
  induction cs with
  | nil => simp
  | cons c cs ih =>
    rw [List.flatten_cons, List.length_append, h c List.mem_cons_self,
      ih fun c' hc' => h c' (List.mem_cons_of_mem c hc'), List.length_cons, Nat.succ_mul, Nat.add_comm]

/-- **Full batches**: none is empty, none too long, and their number is known. -/
theorem batches_full {batch : Nat} {es : List (Option E)} (he : 0 < batch ∨ ∀ e ∈ es, e.isSome) :
    (∀ c ∈ batches batch es, c ≠ [] ∧ c.length ≤ max batch 1) ∧
      (batches batch es).length = (es.reduceOption.length + max batch 1 - 1) / max batch 1 := by
  have hfull : Full (max batch 1) (es.foldl (feed batch) {}) :=
    foldl_feed_full ⟨fun c hc => absurd hc List.not_mem_nil, by show 0 < max batch 1; omega⟩ he
  have hev := congrArg List.length (foldl_feed_events batch es {})
  rw [List.length_append, sum_length_of_full hfull.handed] at hev
  have hev : (es.foldl (feed batch) {}).handed.length * max batch 1 + (es.foldl (feed batch) {}).buf.length =
      es.reduceOption.length := hev
  have hsize : 0 < max batch 1 := by omega
  have hmem : ∀ c ∈ (es.foldl (feed batch) {}).handed, c ≠ [] ∧ c.length ≤ max batch 1 := by
    intro c hc
    have hlen := hfull.handed c hc
    refine ⟨?_, by omega⟩
    intro hnil
    rw [hnil] at hlen
    simp only [List.length_nil] at hlen
    omega
  have hbuf := hfull.buf
  unfold batches finish
  split
  · next hnil =>
    refine ⟨hmem, ?_⟩
    rw [hnil, List.length_nil, Nat.add_zero] at hev
    rw [← hev, Nat.add_sub_assoc (by omega), Nat.mul_comm, Nat.mul_add_div hsize, Nat.div_eq_of_lt (by omega),
      Nat.add_zero]
  · next hne =>
    have hpos := List.length_pos_iff.mpr hne
    constructor
    · intro c hc
      rcases List.mem_append.mp hc with hc | hc
      · exact hmem c hc
      · rw [List.mem_singleton.mp hc]
        exact ⟨hne, by omega⟩
    · rw [← hev, List.length_append, List.length_singleton, Nat.add_sub_assoc (by omega), Nat.add_assoc,
        Nat.mul_comm, Nat.mul_add_div hsize, Nat.add_left_cancel_iff]
      exact (Nat.div_eq_of_lt_le (by omega) (by omega)).symm

theorem mem_handed_foldl {batch : Nat} {es : List (Option E)} {b : Buffer E} {c : List E} (hc : c ∈ b.handed) :
    c ∈ (es.foldl (feed batch) b).handed := by
  induction es generalizing b with
  | nil => exact hc
  | cons e es ih =>
    rw [List.foldl_cons]
    apply ih
    unfold feed
    simp only
    split
    · exact List.mem_append_left _ hc
    · exact hc

/-- With `batch = 0` every message hands on what there is, be it nothing. -/
theorem nil_mem_batches {es : List (Option E)} (h : none ∈ es) : [] ∈ batches 0 es := by
  have hmem : ∀ b : Buffer E, b.buf = [] → [] ∈ (es.foldl (feed 0) b).handed := by
    induction es with
    | nil => exact absurd h List.not_mem_nil
    | cons e es ih =>
      intro b hb
      have hfeed : feed 0 b e = { buf := [], handed := b.handed ++ [e.toList] } := by
        rw [feed, hb, List.nil_append]
        exact if_pos (Nat.zero_le _)
      rw [List.foldl_cons, hfeed]
      rcases List.mem_cons.mp h with rfl | h
      · exact mem_handed_foldl (List.mem_append_right _ (List.mem_singleton.mpr rfl))
      · exact ih h _ rfl
  unfold batches finish
  split
  · exact hmem {} rfl
  · exact List.mem_append_left _ (hmem {} rfl)

/-! ## Batches that are accepted -/

/-- The batches that the receiver accepts: the `i`-th of them from `k` on if `accepts (k + i)`. -/
def accepted (accepts : Nat → Bool) : Nat → List (List E) → List (List E)
  | _, [] => []
  | k, c :: cs => if accepts k then c :: accepted accepts (k + 1) cs else accepted accepts (k + 1) cs

theorem sum_accepted_le (accepts : Nat → Bool) (k : Nat) (cs : List (List E)) :
    ((accepted accepts k cs).map List.length).sum ≤ (cs.map List.length).sum := by
  induction cs generalizing k with
  | nil => exact Nat.le_refl _
  | cons c cs ih =>
    have := ih (k + 1)
    rw [accepted]
    split
    · simp only [List.map_cons, List.sum_cons]
      omega
    · simp only [List.map_cons, List.sum_cons]
      omega

/-- Batches that are not empty all count only if all are accepted. -/
theorem sum_accepted_eq_iff {accepts : Nat → Bool} {k : Nat} {cs : List (List E)} (h : ∀ c ∈ cs, c ≠ []) :
    (cs.map List.length).sum = ((accepted accepts k cs).map List.length).sum ↔
      ∀ i < cs.length, accepts (k + i) = true := by
  induction cs generalizing k with
  | nil => simp [accepted]
  | cons c cs ih =>
    have hih := ih (k := k + 1) fun c' hc' => h c' (List.mem_cons_of_mem c hc')
    have hpos := List.length_pos_iff.mpr (h c List.mem_cons_self)
    have hle := sum_accepted_le accepts (k + 1) cs
    rw [List.length_cons, Nat.forall_lt_succ_left]
    have hshift : (∀ i < cs.length, accepts (k + (i + 1)) = true) ↔ ∀ i < cs.length, accepts (k + 1 + i) = true := by
      simp only [Nat.add_assoc, Nat.add_comm 1]
    rw [hshift, ← hih, accepted]
    cases hk : accepts k with
    | true =>
      simp only [if_true, List.map_cons, List.sum_cons, true_and]
      omega
    | false =>
      simp only [Bool.false_eq_true, if_false, List.map_cons, List.sum_cons, false_and, iff_false]
      omega

end Batching
