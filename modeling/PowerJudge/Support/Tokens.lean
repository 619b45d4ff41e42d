import PowerJudge.Support.Blanks

/-!
# Tokens of a text

A token is a maximal run of symbols that are not separators.  The tokens of a
text are determined by its joints: for every symbol that is not a separator,
whether the next symbol is one as well.  The module is independent of the
alphabet and of which symbols separate.
-/

namespace PowerJudge

variable {α : Type*} (sep : α → Bool)

/-- The maximal runs of symbols that are not separators. -/
def tokens (xs : List α) : List (List α) := (xs.splitOnP sep).filter fun t => !t.isEmpty

@[simp] theorem tokens_nil : tokens sep [] = [] := by simp [tokens]

/-- Whether the text starts inside a token. -/
def startsToken : List α → Bool
  | [] => false
  | x :: _ => !sep x

/-- The symbols of the tokens, each with whether its token goes on after it. -/
def joints : List α → List (α × Bool)
  | [] => []
  | x :: xs => if sep x then joints xs else (x, startsToken sep xs) :: joints xs

/-- The joints of a single token. -/
def tokenJoints : List α → List (α × Bool)
  | [] => []
  | x :: xs => (x, !xs.isEmpty) :: tokenJoints xs

/-- Put a symbol before the first token, as its first symbol if the token goes
on after it. -/
def joinToken (x : α) : Bool → List (List α) → List (List α)
  | true, t :: ts => (x :: t) :: ts
  | true, [] => [[x]]
  | false, ts => [x] :: ts

/-- The tokens with given joints. -/
def regroup : List (α × Bool) → List (List α)
  | [] => []
  | (x, goesOn) :: rest => joinToken x goesOn (regroup rest)

variable {sep}

theorem tokens_cons_of_sep {x : α} (h : sep x = true) (xs : List α) :
    tokens sep (x :: xs) = tokens sep xs := by
  simp [tokens, List.splitOnP_cons_eq_if_modifyHead, h]

/-- The first piece of a split is empty if the text does not start inside a
token. -/
theorem exists_splitOnP_eq_cons (xs : List α) :
    ∃ t ts, xs.splitOnP sep = t :: ts ∧ t.isEmpty = !startsToken sep xs := by
  cases xs with
  | nil => exact ⟨[], [], List.splitOnP_nil, rfl⟩
  | cons x xs =>
      obtain ⟨t, ts, hsplit⟩ := List.exists_cons_of_ne_nil (List.splitOnP_ne_nil sep xs)
      cases hx : sep x with
      | true =>
          refine ⟨[], t :: ts, ?_, ?_⟩
          · simp [List.splitOnP_cons_eq_if_modifyHead, hx, hsplit]
          · simp [startsToken, hx]
      | false =>
          refine ⟨x :: t, ts, ?_, ?_⟩
          · simp [List.splitOnP_cons_eq_if_modifyHead, hx, hsplit]
          · simp [startsToken, hx]

theorem tokens_cons_of_not_sep {x : α} (h : sep x = false) (xs : List α) :
    ∃ t ts, tokens sep (x :: xs) = (x :: t) :: ts ∧ t.isEmpty = !startsToken sep xs ∧
      tokens sep xs = if startsToken sep xs then t :: ts else ts := by
  obtain ⟨t, ts, hsplit, hempty⟩ := @exists_splitOnP_eq_cons _ sep xs
  refine ⟨t, ts.filter fun t => !t.isEmpty, ?_, hempty, ?_⟩
  · simp [tokens, List.splitOnP_cons_eq_if_modifyHead, h, hsplit]
  · cases hstarts : startsToken sep xs with
    | true => simp [tokens, hsplit, hempty, hstarts]
    | false => simp [tokens, hsplit, hempty, hstarts]

theorem joints_eq_flatMap_tokens (xs : List α) :
    joints sep xs = (tokens sep xs).flatMap tokenJoints := by
  induction xs with
  | nil => simp [joints]
  | cons x xs ih =>
      cases hx : sep x with
      | true => rw [joints, if_pos hx, tokens_cons_of_sep hx, ih]
      | false =>
          obtain ⟨t, ts, htokens, hempty, hrest⟩ := tokens_cons_of_not_sep hx xs
          have hxnot : ¬sep x = true := by simp [hx]
          rw [joints, if_neg hxnot, ih, htokens, hrest]
          cases hstarts : startsToken sep xs with
          | true => simp [tokenJoints, hempty, hstarts]
          | false =>
              have hnil : t = [] := by simpa [hstarts] using hempty
              simp [tokenJoints, hnil]

theorem regroup_joints (xs : List α) : regroup (joints sep xs) = tokens sep xs := by
  induction xs with
  | nil => simp [joints, regroup]
  | cons x xs ih =>
      cases hx : sep x with
      | true => rw [joints, if_pos hx, tokens_cons_of_sep hx, ih]
      | false =>
          obtain ⟨t, ts, htokens, hempty, hrest⟩ := tokens_cons_of_not_sep hx xs
          have hxnot : ¬sep x = true := by simp [hx]
          rw [joints, if_neg hxnot, regroup, ih, htokens, hrest]
          cases hstarts : startsToken sep xs with
          | true => rfl
          | false =>
              have hnil : t = [] := by simpa [hstarts] using hempty
              rw [hnil]
              rfl

/-- Tokens and joints determine each other. -/
theorem tokens_eq_iff {xs ys : List α} :
    tokens sep xs = tokens sep ys ↔ joints sep xs = joints sep ys := by
  constructor
  · intro h
    rw [joints_eq_flatMap_tokens, joints_eq_flatMap_tokens, h]
  · intro h
    rw [← regroup_joints, ← regroup_joints, h]

/-! ## Joints and blanks -/

theorem startsToken_eq_false_of_all {xs : List α} (h : xs.all sep = true) :
    startsToken sep xs = false := by
  cases xs with
  | nil => rfl
  | cons x xs => simp_all [startsToken]

theorem joints_eq_nil_of_all {xs : List α} (h : xs.all sep = true) : joints sep xs = [] := by
  induction xs with
  | nil => rfl
  | cons x xs ih =>
      obtain ⟨hx, hxs⟩ : sep x = true ∧ xs.all sep = true := by simpa using h
      rw [joints, if_pos hx, ih hxs]

/-- Separators at the end of a text are not part of its joints. -/
theorem joints_append_of_all {w : List α} (h : w.all sep = true) (xs : List α) :
    joints sep (xs ++ w) = joints sep xs := by
  induction xs with
  | nil => exact joints_eq_nil_of_all h
  | cons x xs ih =>
      have hstarts : startsToken sep (xs ++ w) = startsToken sep xs := by
        cases xs with
        | nil => exact startsToken_eq_false_of_all h
        | cons y ys => rfl
      simp only [List.cons_append, joints, ih, hstarts]

theorem AgreeToTail.joints_eq {xs ys : List α} (h : AgreeToTail sep xs ys) :
    joints sep xs = joints sep ys := by
  obtain ⟨w, hw, rfl | rfl⟩ := h
  · exact joints_append_of_all hw ys
  · exact (joints_append_of_all hw xs).symm

end PowerJudge
