import Mathlib.Algebra.Group.Action.Defs
import Mathlib.Algebra.GroupWithZero.Nat
import Mathlib.Algebra.Order.BigOperators.Group.List
import Mathlib.Algebra.Order.Group.Nat
import Mathlib.Data.List.Induction

/-!
# Batches of projection rows

Projection rows are written to Redis in batches, one EVAL command each.  A batch ends before its
rows are too many or its command too long.  The length is an estimate: a row counts as a command
of its own and a few bytes more.  The rows are read from `usage_projection`, whose columns bound
them, so that none is refused.
-/

namespace SmsPlatform.Usage

open List Nat

/-! ## Commands -/

/-- The length of a text in UTF-8. -/
def utf8Size (t : List Char) : ℕ := (t.map Char.utf8Size).sum

def argumentBytes (argument : List Char) : ℕ :=
  utf8Size argument + (toDigits 10 (utf8Size argument)).length + 5

def redisCommandBytes (arguments : List (List Char)) : ℕ :=
  (toDigits 10 arguments.length).length + 3 + (arguments.map argumentBytes).sum

def respBulk (argument : List Char) : List Char :=
  ['$'] ++ toDigits 10 (utf8Size argument) ++ ['\r', '\n'] ++ argument ++ ['\r', '\n']

/-- A command as it is sent, an array of bulk strings. -/
def respCommand (arguments : List (List Char)) : List Char :=
  ['*'] ++ toDigits 10 arguments.length ++ ['\r', '\n'] ++ arguments.flatMap respBulk

theorem utf8Size_append (t u : List Char) : utf8Size (t ++ u) = utf8Size t + utf8Size u := by
  simp [utf8Size]

theorem utf8Size_toDigits (n : ℕ) :
    utf8Size (toDigits 10 n) = (toDigits 10 n).length := by
  have hone : ∀ c ∈ toDigits 10 n, c.utf8Size = 1 := by
    intro c hc
    have hdigit := isDigit_of_mem_toDigits (by decide) (by decide) hc
    simp only [Char.isDigit, Bool.and_eq_true, decide_eq_true_eq] at hdigit
    exact if_pos (UInt32.le_trans hdigit.2 (by decide))
  simp [utf8Size, map_congr_left hone]

theorem utf8Size_respCommand (arguments : List (List Char)) :
    utf8Size (respCommand arguments) = redisCommandBytes arguments := by
  have hends : utf8Size ['*'] = 1 ∧ utf8Size ['$'] = 1 ∧ utf8Size ['\r', '\n'] = 2 := by decide
  have hbulk : utf8Size (arguments.flatMap respBulk) = (arguments.map argumentBytes).sum := by
    induction arguments with
    | nil => rfl
    | cons a as ih =>
      rw [flatMap_cons, utf8Size_append, ih, map_cons, sum_cons]
      simp only [respBulk, utf8Size_append, utf8Size_toDigits, argumentBytes, hends]
      omega
  simp only [respCommand, utf8Size_append, utf8Size_toDigits, hbulk, redisCommandBytes, hends]
  omega

/-! ## Batches -/

/-- A row of `usage_projection`: its key is a `VARCHAR(256)`, its numbers are `BIGINT`. -/
structure ProjectionRow where
  dimensionKey : List Char
  value : ℤ
  version : ℤ
  expiresAtMs : ℤ
  key_length : dimensionKey.length ≤ 256
  natAbs_lt : ∀ n ∈ [value, version, expiresAtMs], n.natAbs < 2 ^ 63

def projectionArguments (row : ProjectionRow) : List (List Char) :=
  [row.dimensionKey, "usage:projection:version:".toList ++ row.dimensionKey,
    (toString row.value).toList, (toString row.version).toList, (toString row.expiresAtMs).toList]

def applyProjectionsLua : List Char :=
  ["",
    "local applied = 0",
    "for key_index = 1, #KEYS, 2 do",
    "  local row_index = ((key_index - 1) / 2) * 3",
    "  local current_version = tonumber(redis.call('GET', KEYS[key_index + 1]) or '-1')",
    "  local incoming_version = tonumber(ARGV[row_index + 2])",
    "  if current_version <= incoming_version then",
    "    redis.call(",
    "      'SET', KEYS[key_index], ARGV[row_index + 1],",
    "      'PXAT', ARGV[row_index + 3]",
    "    )",
    "    redis.call(",
    "      'SET', KEYS[key_index + 1], ARGV[row_index + 2],",
    "      'PXAT', ARGV[row_index + 3]",
    "    )",
    "    applied = applied + 1",
    "  end",
    "end",
    "return applied"].flatMap (fun line => line.toList ++ ['\n'])

/-- The command that `_apply_rows` sends for a batch. -/
def evalCommand (batch : List ProjectionRow) : List (List Char) :=
  let sorted := batch.mergeSort (fun r s =>
    !s.dimensionKey.lex r.dimensionKey (fun c d => decide (c < d)))
  let keys := sorted.flatMap (fun r => (projectionArguments r).take 2)
  ["EVAL".toList, applyProjectionsLua, toDigits 10 keys.length] ++ keys ++
    sorted.flatMap (fun r => (projectionArguments r).drop 2)

def projectionBatchRows : ℕ := 500

def projectionCommandBytes : ℕ := 256 * 1024

def overhead : ℕ :=
  redisCommandBytes ["EVAL".toList, applyProjectionsLua, toDigits 10 (projectionBatchRows * 2)]

def rowBytes (row : ProjectionRow) : ℕ := redisCommandBytes (projectionArguments row) + 16

/-- The loop of `_projection_batches`: what is yielded and the error. -/
def formBatches : List ProjectionRow → List ProjectionRow → ℕ →
    List (List ProjectionRow) × Option String
  | [], batch, _ => (if batch.isEmpty then [] else [batch], none)
  | row :: rows, batch, size =>
    if overhead + rowBytes row > projectionCommandBytes then
      ([], some "usage projection dimension exceeds command budget")
    else if !batch.isEmpty && decide (batch.length ≥ projectionBatchRows ∨
        size + rowBytes row > projectionCommandBytes) then
      let rest := formBatches rows [row] (overhead + rowBytes row)
      (batch :: rest.1, rest.2)
    else formBatches rows (batch ++ [row]) (size + rowBytes row)

def projectionBatches (rows : List ProjectionRow) : List (List ProjectionRow) × Option String :=
  formBatches rows [] overhead

variable {batch rows : List ProjectionRow}

/-- The estimate has 20 bytes too many for each row, and 11 for the numbers in the head. -/
theorem redisCommandBytes_evalCommand (batch : List ProjectionRow) :
    redisCommandBytes (evalCommand batch) + 20 * batch.length + 11 =
      overhead + (batch.map rowBytes).sum + (toDigits 10 (3 + 5 * batch.length)).length +
        argumentBytes (toDigits 10 (2 * batch.length)) := by
  unfold evalCommand
  generalize hsorted : batch.mergeSort _ = sorted
  have hperm : sorted.Perm batch := hsorted ▸ mergeSort_perm batch _
  have hdigits : (toDigits 10 5).length = 1 ∧ (toDigits 10 (0 + 1 + 1 + 1)).length = 1 ∧
      argumentBytes (toDigits 10 (projectionBatchRows * 2)) = 10 := by decide
  have hrows : ((sorted.flatMap (fun r => (projectionArguments r).take 2)).map argumentBytes).sum +
      ((sorted.flatMap (fun r => (projectionArguments r).drop 2)).map argumentBytes).sum +
        20 * batch.length = (batch.map rowBytes).sum := by
    rw [← hperm.length_eq, ← (hperm.map rowBytes).sum_eq]
    clear hperm hsorted
    induction sorted with
    | nil => rfl
    | cons row rows ih =>
      simp only [flatMap_cons, map_append, sum_append_nat, map_cons, sum_cons, length_cons,
        rowBytes, redisCommandBytes, projectionArguments, length_nil, reduceAdd, take_succ_cons,
        take_zero, drop_succ_cons, drop_zero, map_nil, sum_nil, hdigits] at ih ⊢
      omega
  have hlength : (sorted.flatMap (fun r => (projectionArguments r).take 2)).length =
      2 * batch.length ∧ (sorted.flatMap (fun r => (projectionArguments r).drop 2)).length =
      3 * batch.length := by
    simp [projectionArguments, length_flatMap, hperm.length_eq, mul_comm]
  have hcount : 0 + 1 + 1 + 1 + 2 * batch.length + 3 * batch.length = 3 + 5 * batch.length := by
    omega
  simp only [overhead, redisCommandBytes, length_append, length_cons, length_nil, map_append,
    sum_append_nat, map_cons, map_nil, sum_cons, sum_nil, hlength, hcount, hdigits]
  omega

/-- A batch within both bounds. -/
def Bounded (batch : List ProjectionRow) : Prop :=
  batch ≠ [] ∧ batch.length ≤ projectionBatchRows ∧
    utf8Size (respCommand (evalCommand batch)) ≤ projectionCommandBytes

theorem bounded_of_estimate (hne : batch ≠ []) (hlength : batch.length ≤ projectionBatchRows)
    (hle : overhead + (batch.map rowBytes).sum ≤ projectionCommandBytes) : Bounded batch := by
  refine ⟨hne, hlength, ?_⟩
  rw [utf8Size_respCommand]
  have heq := redisCommandBytes_evalCommand batch
  have hpos := length_pos_iff.mpr hne
  unfold projectionBatchRows at hlength
  have hdigits : ∀ n < 10000, (toDigits 10 n).length ≤ 4 := fun n hn =>
    (length_toDigits_le_iff (by decide) (by decide)).mpr hn
  have harray := hdigits (3 + 5 * batch.length) (by omega)
  have hkeys := hdigits (2 * batch.length) (by omega)
  have hdigit : ∀ k ≤ 4, (toDigits 10 k).length = 1 := by decide
  rw [argumentBytes, utf8Size_toDigits, hdigit _ hkeys] at heq
  omega

theorem argumentBytes_le {argument : List Char} (h : argument.length ≤ 281) :
    argumentBytes argument ≤ 1133 := by
  have hsize : utf8Size argument ≤ 1124 := by
    have hle := sum_le_card_nsmul (argument.map Char.utf8Size) 4 (by simp [Char.utf8Size_le_four])
    simp only [length_map, smul_eq_mul] at hle
    unfold utf8Size
    omega
  have hdigits : (toDigits 10 (utf8Size argument)).length ≤ 4 :=
    (length_toDigits_le_iff (by decide) (by decide)).mpr (by omega)
  unfold argumentBytes
  omega

theorem length_toString_le {n : ℤ} (h : n.natAbs < 2 ^ 63) : (toString n).toList.length ≤ 20 := by
  have hdigits : (toDigits 10 n.natAbs).length ≤ 19 :=
    (length_toDigits_le_iff (by decide) (by decide)).mpr (by omega)
  cases n with
  | ofNat n => simpa [toString, Int.repr] using le_succ_of_le hdigits
  | negSucc n =>
    have hsign : (toDigits 10 (n + 1)).length + 1 ≤ 20 := succ_le_succ hdigits
    simpa [toString, Int.repr] using hsign

/-- A row that is stored is far below the bound. -/
theorem overhead_add_rowBytes_le (row : ProjectionRow) :
    overhead + rowBytes row ≤ projectionCommandBytes := by
  have hoverhead : overhead ≤ 4096 := by decide +kernel
  have harguments : ∀ n ∈ (projectionArguments row).map argumentBytes, n ≤ 1133 := by
    have hkey := row.key_length
    have hnumber := fun n hn => length_toString_le (row.natAbs_lt n hn)
    simp only [forall_mem_cons] at hnumber
    refine forall_mem_map.mpr (fun argument hmem => argumentBytes_le ?_)
    simp only [projectionArguments, mem_cons, not_mem_nil, or_false] at hmem
    have hname : "usage:projection:version:".toList.length = 25 := by decide
    rcases hmem with rfl | rfl | rfl | rfl | rfl <;> (try rw [length_append]) <;> omega
  have hsum := sum_le_card_nsmul _ 1133 harguments
  have hdigit : (toDigits 10 5).length = 1 := by decide
  simp only [length_map, projectionArguments, length_cons, length_nil, smul_eq_mul] at hsum
  simp only [rowBytes, redisCommandBytes, projectionArguments, length_cons, length_nil,
    projectionCommandBytes, hdigit]
  omega

/-- The loop, entered with a batch that fits. -/
theorem formBatches_spec (rows batch : List ProjectionRow) {size : ℕ}
    (hsize : overhead + (batch.map rowBytes).sum = size) (hbatch : batch = [] ∨ Bounded batch) :
    (∀ b ∈ (formBatches rows batch size).1, Bounded b) ∧
    (formBatches rows batch size).1.flatten = batch ++ rows ∧
    (formBatches rows batch size).2 = none := by
  induction rows generalizing batch size with
  | nil =>
    rcases hbatch with rfl | hbatch
    · simp [formBatches]
    · simp [formBatches, hbatch, hbatch.1]
  | cons row rows ih =>
    have hfits := overhead_add_rowBytes_le row
    have hsingle : Bounded [row] :=
      bounded_of_estimate (cons_ne_nil _ _) (le_add_left 1 499) (by simpa using hfits)
    rw [formBatches, if_neg (not_lt.mpr hfits)]
    split
    · rename_i hcut
      obtain ⟨hbounded, hflatten, herror⟩ :=
        @ih [row] (overhead + rowBytes row) (by simp) (.inr hsingle)
      refine ⟨forall_mem_cons.mpr ⟨hbatch.resolve_left ?_, hbounded⟩, ?_, herror⟩
      · rintro rfl
        cases hcut
      · rw [flatten_cons, hflatten, singleton_append]
    · rename_i hcut
      have hsum : overhead + ((batch ++ [row]).map rowBytes).sum = size + rowBytes row := by
        simp [← hsize, add_assoc]
      have hnext : Bounded (batch ++ [row]) := by
        rcases hbatch with rfl | hbatch
        · exact hsingle
        · simp [hbatch.1] at hcut
          exact bounded_of_estimate (by simp) (by simpa [succ_le_iff] using hcut.1)
            (hsum.trans_le hcut.2)
      simpa using ih _ hsum (.inr hnext)

/-- The batches, in order, are the rows, and each is within both bounds. -/
theorem projection_batches_bounded (rows : List ProjectionRow) :
    (projectionBatches rows).2 = none ∧ (projectionBatches rows).1.flatten = rows ∧
    ∀ batch ∈ (projectionBatches rows).1, Bounded batch := by
  have hstart : ∀ size, size + (([] : List ProjectionRow).map rowBytes).sum = size := fun _ => rfl
  obtain ⟨hbounded, hflatten, herror⟩ :=
    formBatches_spec rows [] (hstart overhead) (.inl rfl)
  exact ⟨herror, hflatten, hbounded⟩

/-! ## Rows in Redis -/

/-- The row under each dimension key; its version key is written together with it. -/
abbrev RedisRows := List Char → Option ProjectionRow

/-- A round of the loop of the script at a time.  Keys that have run out are not found. -/
def applyRow (rows : RedisRows) (x : ℤ × ProjectionRow) : RedisRows := fun key =>
  let found := (rows key).filter fun r => decide (x.1 ≤ r.expiresAtMs)
  if key = x.2.dimensionKey ∧ found.elim (-1) ProjectionRow.version ≤ x.2.version then some x.2
  else rows key

/-- What all commands leave behind, round by round. -/
def redisRows (sent : List (ℤ × ProjectionRow)) : RedisRows := sent.foldl applyRow (fun _ => none)

/-- Each key has, of the rows that were sent for it, one with the highest version. -/
def Newest (rows : RedisRows) (sent : List (ℤ × ProjectionRow)) : Prop :=
  ∀ key, (rows key = none → ∀ x ∈ sent, x.2.dimensionKey ≠ key) ∧
    ∀ r, rows key = some r → r ∈ sent.map Prod.snd ∧ r.dimensionKey = key ∧
      ∀ x ∈ sent, x.2.dimensionKey = key → x.2.version ≤ r.version

/-- No row runs out before the last round. -/
def Live (sent : List (ℤ × ProjectionRow)) : Prop :=
  ∀ x ∈ sent, 0 ≤ x.2.version ∧ ∀ y ∈ sent, x.1 < y.2.expiresAtMs

variable {sent : List (ℤ × ProjectionRow)}

theorem newest_applyRow {rows : RedisRows} {x : ℤ × ProjectionRow} (h : Newest rows sent)
    (hlive : Live (sent ++ [x])) : Newest (applyRow rows x) (sent ++ [x]) := by
  intro key
  have hkey := h key
  have hx := hlive x (by simp)
  unfold applyRow
  cases hrow : rows key with
  | none => grind
  | some r =>
    obtain ⟨y, hy, rfl⟩ := mem_map.mp (hkey.2 r hrow).1
    have hfound : x.1 ≤ y.2.expiresAtMs := Int.le_of_lt (hx.2 y (by simp [hy]))
    grind

/-- In whatever order and however often rows are sent, the highest version remains. -/
theorem newest_redisRows (hlive : Live sent) : Newest (redisRows sent) sent := by
  induction sent using List.reverseRecOn with
  | nil => exact fun _ => ⟨fun _ => nofun, nofun⟩
  | append_singleton sent x ih =>
    rw [redisRows, foldl_append]
    refine newest_applyRow (ih (fun y hy => ?_)) hlive
    obtain ⟨hversion, hends⟩ := hlive y (by simp [hy])
    exact ⟨hversion, fun z hz => hends z (by simp [hz])⟩

def sampleRow (value version : Fin 10) : ProjectionRow :=
  ⟨[], value, version, 9, by decide, by simp; omega⟩

theorem newest_redisRows_late :
    Newest (redisRows [(0, sampleRow 5 2), (1, sampleRow 4 1)])
      [(0, sampleRow 5 2), (1, sampleRow 4 1)] :=
  newest_redisRows (by simp [Live, sampleRow])

end SmsPlatform.Usage
