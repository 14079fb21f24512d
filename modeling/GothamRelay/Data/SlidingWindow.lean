import Mathlib.Data.List.DropRight
import Mathlib.Order.Basic

namespace GothamRelay.Data.SlidingWindow

/-! A log of accepted keys, each with the time of its acceptance, and the
window of it that still blocks a key: the last `capacity` acceptances that are
at most `ttl` old. -/

abbrev Log (κ : Type u) := List (κ × Nat)

def live (ttl now : Nat) (entry : κ × Nat) : Bool :=
  decide (now - entry.2 ≤ ttl)

def Chronological (log : Log κ) : Prop :=
  log.Pairwise fun first second => first.2 ≤ second.2

def window (capacity ttl : Nat) (log : Log κ) (now : Nat) : Log κ :=
  (log.rtake capacity).filter (live ttl now)

def Blocked (capacity ttl : Nat) (log : Log κ) (key : κ) (now : Nat) : Prop :=
  key ∈ (window capacity ttl log now).map Prod.fst

@[simp] theorem live_iff {ttl now : Nat} {entry : κ × Nat} :
    live ttl now entry = true ↔ now - entry.2 ≤ ttl :=
  decide_eq_true_iff

theorem length_rtake_le (log : Log κ) (capacity : Nat) :
    (log.rtake capacity).length ≤ capacity := by
  simp only [List.rtake, List.length_drop]
  omega

theorem rtake_suffix (log : Log κ) (capacity : Nat) :
    log.rtake capacity <:+ log :=
  List.drop_suffix _ _

private theorem mem_rtake_iff {log : Log κ} {capacity : Nat} {entry : κ × Nat} :
    entry ∈ log.rtake capacity ↔
      ∃ before after, log = before ++ entry :: after ∧
        after.length < capacity := by
  constructor
  · intro member
    obtain ⟨front, back, split⟩ := List.append_of_mem member
    obtain ⟨dropped, whole⟩ := rtake_suffix log capacity
    refine ⟨dropped ++ front, back, ?_, ?_⟩
    · rw [← whole, split, List.append_assoc]
    · have bound := length_rtake_le log capacity
      rw [split, List.length_append, List.length_cons] at bound
      omega
  · rintro ⟨before, after, rfl, short⟩
    simp only [List.rtake, List.length_append, List.length_cons]
    rw [List.drop_append_of_le_length (by omega)]
    simp

theorem blocked_iff {capacity ttl now : Nat} {log : Log κ} {key : κ} :
    Blocked capacity ttl log key now ↔
      ∃ before time after, log = before ++ (key, time) :: after ∧
        after.length < capacity ∧ now - time ≤ ttl := by
  simp only [Blocked, window, List.mem_map, List.mem_filter, live_iff,
    mem_rtake_iff]
  constructor
  · rintro ⟨⟨_, time⟩, ⟨⟨before, after, split, short⟩, fresh⟩, rfl⟩
    exact ⟨before, time, after, split, short, fresh⟩
  · rintro ⟨before, time, after, split, short, fresh⟩
    exact ⟨(key, time), ⟨⟨before, after, split, short⟩, fresh⟩, rfl⟩

theorem Blocked.prepend {capacity ttl now : Nat} {log : Log κ} {key : κ}
    (blocked : Blocked capacity ttl log key now) (earlier : Log κ) :
    Blocked capacity ttl (earlier ++ log) key now := by
  obtain ⟨before, time, after, rfl, short, fresh⟩ := blocked_iff.mp blocked
  exact blocked_iff.mpr
    ⟨earlier ++ before, time, after, by simp, short, fresh⟩

/-- Two acceptances of one key are more than `ttl` apart or have `capacity`
others between them. -/
def Spaced (capacity ttl : Nat) (log : Log κ) : Prop :=
  ∀ (first second : Nat) (earlier later : κ × Nat), first < second →
    log[first]? = some earlier → log[second]? = some later →
      earlier.1 = later.1 →
        ttl < later.2 - earlier.2 ∨ capacity ≤ second - first - 1

theorem spaced_nil (capacity ttl : Nat) :
    Spaced capacity ttl ([] : Log κ) := nofun

theorem Spaced.concat {capacity ttl now : Nat} {log : Log κ} {key : κ}
    (spaced : Spaced capacity ttl log)
    (free : ¬ Blocked capacity ttl log key now) :
    Spaced capacity ttl (log ++ [(key, now)]) := by
  intro first second earlier later before hadFirst hadSecond same
  have bound := (List.getElem?_eq_some_iff.mp hadSecond).1
  rw [List.length_append, List.length_singleton] at bound
  rw [List.getElem?_append_left (by omega)] at hadFirst
  cases Nat.lt_succ_iff_lt_or_eq.mp bound with
  | inl inside =>
      rw [List.getElem?_append_left inside] at hadSecond
      exact spaced _ _ _ _ before hadFirst hadSecond same
  | inr last =>
      subst second
      rw [List.getElem?_concat_length, Option.some.injEq] at hadSecond
      subst later
      obtain ⟨inside, found⟩ := List.getElem?_eq_some_iff.mp hadFirst
      -- The earlier acceptance would block the key if it were in the window.
      by_contra close
      refine free (blocked_iff.mpr ⟨log.take first, earlier.2,
        log.drop (first + 1), ?_, ?_, ?_⟩)
      · have entry_eq : log[first] = (key, earlier.2) :=
          found.trans (Prod.ext same rfl)
        rw [← entry_eq, List.getElem_cons_drop, List.take_append_drop]
      · rw [List.length_drop]
        omega
      · exact Nat.le_of_not_lt fun old => close (.inl old)

theorem length_window_le (capacity ttl now : Nat) (log : Log κ) :
    (window capacity ttl log now).length ≤ capacity :=
  (List.length_filter_le _ _).trans (length_rtake_le log capacity)

theorem filter_live_eq_self {ttl now : Nat} {entry : κ × Nat} {rest : Log κ}
    (ordered : Chronological (entry :: rest))
    (fresh : live ttl now entry = true) :
    (entry :: rest).filter (live ttl now) = entry :: rest := by
  obtain ⟨newest, _⟩ := List.pairwise_cons.mp ordered
  apply List.filter_eq_self.mpr
  intro other member
  rcases List.mem_cons.mp member with rfl | member
  · exact fresh
  · have older := newest other member
    simp only [live_iff] at fresh ⊢
    omega

theorem dropWhile_not_live {ttl now : Nat} {log : Log κ}
    (ordered : Chronological log) :
    (log.dropWhile fun entry => !live ttl now entry) =
      log.filter (live ttl now) := by
  induction log with
  | nil => rfl
  | cons entry rest ih =>
      by_cases fresh : live ttl now entry = true
      · rw [filter_live_eq_self ordered fresh]
        simp [fresh]
      · rw [List.filter_cons_of_neg fresh, ← ih (List.Pairwise.of_cons ordered)]
        simp [fresh]

theorem filter_live_filter_live {ttl now later : Nat} (le : now ≤ later)
    (log : Log κ) :
    (log.filter (live ttl now)).filter (live ttl later) =
      log.filter (live ttl later) := by
  rw [List.filter_filter]
  apply List.filter_congr
  intro entry _
  rw [Bool.and_eq_left_iff_imp]
  simp only [live_iff]
  omega

private theorem rtake_succ_eq_cons {log : Log κ} {capacity : Nat}
    (long : capacity < log.length) :
    ∃ entry, log.rtake (capacity + 1) = entry :: log.rtake capacity := by
  refine ⟨log[log.length - (capacity + 1)], ?_⟩
  simp only [List.rtake]
  rw [List.drop_eq_getElem_cons (by omega)]
  congr 2
  omega

/-- Making room for one more acceptance: if the window at `now` is full its
oldest entry goes, and what remains is, from `now` on, the window of one entry
less. -/
theorem filter_live_evicted {capacity ttl now later : Nat} {log : Log κ}
    (ordered : Chronological log) (le : now ≤ later) :
    (if capacity + 1 ≤ (window (capacity + 1) ttl log now).length then
        (window (capacity + 1) ttl log now).tail
      else window (capacity + 1) ttl log now).filter (live ttl later) =
      (log.rtake capacity).filter (live ttl later) := by
  by_cases long : capacity < log.length
  · obtain ⟨entry, split⟩ := rtake_succ_eq_cons long
    have recent : Chronological (entry :: log.rtake capacity) := by
      rw [← split]
      exact ordered.sublist (rtake_suffix log (capacity + 1)).sublist
    by_cases fresh : live ttl now entry = true
    · have all : window (capacity + 1) ttl log now =
          entry :: log.rtake capacity := by
        rw [window, split, filter_live_eq_self recent fresh]
      have full : (log.rtake capacity).length = capacity := by
        simp only [List.rtake, List.length_drop]
        omega
      rw [all, if_pos (by simp [full]), List.tail_cons]
    · have same : window (capacity + 1) ttl log now =
          window capacity ttl log now := by
        rw [window, split, List.filter_cons_of_neg fresh, window]
      have room := length_window_le capacity ttl now log
      rw [same, if_neg (by omega), window, filter_live_filter_live le]
  · have same : ∀ count, capacity ≤ count → log.rtake count = log := by
      intro count bound
      simp only [List.rtake]
      rw [Nat.sub_eq_zero_of_le (by omega), List.drop_zero]
    have room := length_window_le capacity ttl now log
    have shorter : window (capacity + 1) ttl log now =
        window capacity ttl log now := by
      rw [window, window, same _ (by omega), same _ (by omega)]
    rw [shorter, if_neg (by omega), window, filter_live_filter_live le]

end GothamRelay.Data.SlidingWindow
