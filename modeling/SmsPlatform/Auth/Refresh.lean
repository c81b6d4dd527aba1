import SmsPlatform.Support.Machine
import SmsPlatform.Support.Text

/-!
# Rotation and revocation of refresh tokens

The two scripts on the keys of a session family.  One key holds the binding of the refresh token
that may be used next.  The other one holds, for a few seconds after a rotation, the replaced
binding and its successor, or else the mark that the session has been revoked.
-/

namespace SmsPlatform.Auth

open Support Option

/-! ## Keys -/

/-- What a key holds; only strings are read. -/
inductive Value
  | string (text : Text)
  | other
  deriving DecidableEq

/-- A stored value and the last time at which it can be found, if it expires. -/
structure Key where
  value : Value
  deadline : Option ℕ
  deriving DecidableEq

/-- The key as a script at `now` finds it. -/
def alive (now : ℕ) (key : Option Key) : Option Key :=
  key.filter (fun k => k.deadline.all (fun d => decide (now ≤ d)))

theorem alive_eq_some_iff {now : ℕ} {key : Option Key} {k : Key} :
    alive now key = some k ↔ key = some k ∧ ∀ d, k.deadline = some d → now ≤ d := by
  unfold alive
  rw [filter_eq_some_iff, all_eq_true]
  simp

/-! ## Grace values -/

def lineFeed : ℕ := '\n'.toNat

/-- `string.find(value, '\n', 1, true)`: the parts in front of and behind the first line feed. -/
def cutLine (t : Text) : Option (Text × Text) :=
  match t.dropWhile (fun c => decide (c ≠ lineFeed)) with
  | [] => none
  | _ :: rest => some (t.takeWhile (fun c => decide (c ≠ lineFeed)), rest)

theorem cutLine_append {line : Text} (h : lineFeed ∉ line) (rest : Text) :
    cutLine (line ++ lineFeed :: rest) = some (line, rest) := by
  have hall : ∀ c ∈ line, decide (c ≠ lineFeed) = true :=
    fun c hc => decide_eq_true (fun heq => h (heq ▸ hc))
  unfold cutLine
  rw [List.dropWhile_append_of_pos hall, List.takeWhile_append_of_pos hall]
  simp

def graceTag : Text := lit "grace"

/-- The two bindings of a grace value. -/
def graceBindings (state : Text) : Option (Text × Text) :=
  (cutLine state).bind fun (tag, rest) => if tag = graceTag then cutLine rest else none

/-- `is_grace`. -/
def isGrace (state : Text) : Bool :=
  (graceBindings state).any (fun (previous, replacement) =>
    !previous.isEmpty && !replacement.isEmpty)

/-- A binding is a JSON object, written without line feeds. -/
structure Binding where
  text : Text
  text_ne_nil : text ≠ []
  lineFeed_not_mem : lineFeed ∉ text

/-- `'grace\n' .. ARGV[1] .. '\n' .. ARGV[2]`. -/
def graceValue (previous replacement : Text) : Text :=
  graceTag ++ lineFeed :: (previous ++ lineFeed :: replacement)

theorem graceBindings_graceValue (previous : Binding) (replacement : Text) :
    graceBindings (graceValue previous.text replacement) = some (previous.text, replacement) :=
  cutLine_append previous.lineFeed_not_mem replacement

theorem isGrace_graceValue (previous replacement : Binding) :
    isGrace (graceValue previous.text replacement.text) = true := by
  unfold isGrace
  rw [graceBindings_graceValue]
  simp [previous.text_ne_nil, replacement.text_ne_nil]

/-! ## Revocation -/

/-- The text of a revocation mark. -/
def revokedMark : Text := lit "1"

theorem isGrace_revokedMark : isGrace revokedMark = false := by decide

/-- `apply_jti_revocation` and `apply_session_revocation`: a mark that lasts for at least the
required time, or nothing if the key holds something else; a value that `replaces` accepts is
replaced. -/
def applyRevocation (replaces : Text → Bool) (now requiredMs : ℕ) (key : Option Key) : Option Key :=
  let mark : Key := ⟨.string revokedMark, some (now + requiredMs)⟩
  match alive now key with
  | none => some mark
  | some k =>
    match k.value with
    | .other => none
    | .string text =>
      if replaces text then some mark
      else if text ≠ revokedMark then none
      else
        match k.deadline with
        | none => some k
        | some d => if d - now = 0 ∨ d - now < requiredMs then some mark else some k

def applyJtiRevocation : ℕ → ℕ → Option Key → Option Key := applyRevocation (fun _ => false)

def applySessionRevocation : ℕ → ℕ → Option Key → Option Key := applyRevocation isGrace

/-- A mark that is found for the required time from now on. -/
def Marks (now requiredMs : ℕ) (k : Key) : Prop :=
  k.value = .string revokedMark ∧ ∀ d, k.deadline = some d → now + requiredMs ≤ d

theorem marks_of_applyRevocation {replaces : Text → Bool} {now requiredMs : ℕ} {key : Option Key}
    {k : Key} (h : applyRevocation replaces now requiredMs key = some k) :
    Marks now requiredMs k := by
  have hmark : Marks now requiredMs ⟨.string revokedMark, some (now + requiredMs)⟩ :=
    ⟨rfl, fun d hd => le_of_eq (Option.some.inj hd)⟩
  unfold applyRevocation at h
  split at h
  · cases h
    exact hmark
  split at h
  · cases h
  rename_i text hvalue
  split at h
  · cases h
    exact hmark
  split at h
  · cases h
  rename_i htext
  rw [not_not] at htext
  rw [htext] at hvalue
  split at h
  · rename_i hnone
    cases h
    refine ⟨hvalue, fun d hd => ?_⟩
    rw [hnone] at hd
    cases hd
  · rename_i deadline hdeadline
    split at h
    · cases h
      exact hmark
    cases h
    refine ⟨hvalue, fun d hd => ?_⟩
    rw [hdeadline] at hd
    cases hd
    omega

/-! ## The scripts -/

/-- The key of the current binding and the one of the session state. -/
structure Family where
  current : Option Key
  session : Option Key

/-- `REFRESH_GRACE_SECONDS`. -/
def refreshGraceSeconds : ℕ := 5

/-- `MAX_VALID_ACCESS_LIFETIME_MS`. -/
def maxValidAccessLifetimeMs : ℕ := 900000

structure RotateArgs where
  expected : Binding
  replacement : Binding
  familyTtl : ℕ
  operationS : ℕ
  maxAccessMs : ℕ

/-- The status of `_ROTATE_REFRESH_LUA`, with the binding it returns. -/
inductive RotateResult
  | rotated (binding : Text)
  | repeated (binding : Text)
  | missing
  | reused
  | unavailable

/-- The binding for which a token is handed out. -/
def RotateResult.token? : RotateResult → Option Text
  | .rotated binding | .repeated binding => some binding
  | .missing | .reused | .unavailable => none

def RotateResult.isRevoking : RotateResult → Bool
  | .missing | .reused => true
  | .rotated _ | .repeated _ | .unavailable => false

theorem RotateResult.eq_of_isRevoking {result : RotateResult} (h : result.isRevoking = true) :
    result = .missing ∨ result = .reused := by
  cases result with
  | missing => exact .inl rfl
  | reused => exact .inr rfl
  | _ => cases h

namespace Family

variable (f : Family) (now : ℕ)

/-- `apply_session_revocation` and `DEL` of the current binding. -/
def revoke (now requiredMs : ℕ) : Option Family :=
  (applySessionRevocation now requiredMs f.session).map fun k => ⟨none, some k⟩

/-- A revocation in the script of a rotation. -/
def revokeWith (now requiredMs : ℕ) (result : RotateResult) : RotateResult × Family :=
  match f.revoke now requiredMs with
  | none => (.unavailable, f)
  | some f' => (result, f')

/-- The replacement becomes the current binding; `SET` refuses an expiry below one second. -/
def advance (a : RotateArgs) : RotateResult × Family :=
  if a.familyTtl < 1 then (.unavailable, f)
  else
    (.rotated a.replacement.text,
      { current := some ⟨.string a.replacement.text, some (now + a.familyTtl * 1000)⟩
        session := some ⟨.string (graceValue a.expected.text a.replacement.text),
          some (now + refreshGraceSeconds * 1000)⟩ })

/-- `_ROTATE_REFRESH_LUA`; `GET` on a key that is not a string is an error. -/
def rotate (a : RotateArgs) : RotateResult × Family :=
  if a.operationS < 1 ∨ a.maxAccessMs < 1 then (.unavailable, f)
  else
    let requiredMs := max a.maxAccessMs (a.operationS * 1000)
    match (alive now f.current).map Key.value with
    | none => f.revokeWith now requiredMs .missing
    | some .other => (.unavailable, f)
    | some (.string current) =>
      if current = a.expected.text then
        match (alive now f.session).map Key.value with
        | none => f.advance now a
        | some .other => (.unavailable, f)
        | some (.string state) =>
          if state = revokedMark then f.revokeWith now requiredMs .reused
          else if isGrace state then f.advance now a
          else (.unavailable, f)
      else
        match (alive now f.session).map Key.value with
        | some .other => (.unavailable, f)
        | none => f.revokeWith now requiredMs .reused
        | some (.string state) =>
          match graceBindings state with
          | none => f.revokeWith now requiredMs .reused
          | some (previous, replacement) =>
            if current = replacement ∧ a.expected.text = previous ∧ replacement ≠ [] then
              (.repeated replacement, f)
            else f.revokeWith now requiredMs .reused

/-- The binding is the one that may be used next. -/
def isCurrent (binding : Text) : Bool :=
  decide ((alive now f.current).map Key.value = some (.string binding))

/-- The binding is the one that was replaced by the current one, within the grace period. -/
def isGraced (binding : Text) : Bool :=
  match (alive now f.current).map Key.value, (alive now f.session).map Key.value with
  | some (.string current), some (.string state) =>
    decide (graceBindings state = some (binding, current))
  | _, _ => false

/-- The session is refused to every access token. -/
def isRevoked : Bool :=
  decide ((alive now f.session).map Key.value = some (.string revokedMark))

end Family

/-! ## Runs -/

/-- The keys of a family and of access tokens, the time of the last script, and as history: the
bindings that have been current, newest first, the pairs for which a token was handed out, and
the time of the last revocation. -/
structure World where
  now : ℕ
  family : Family
  jtis : ℕ → Option Key
  chain : List Text
  grants : List (Text × Text)
  revokedAt : Option ℕ

inductive Action
  | rotate (now : ℕ) (expected replacement : Binding) (remaining ttl : ℕ)
  | revoke (now jti jtiRequired sessionRequested : ℕ)

namespace World

/-- The arguments that `rotate_refresh` passes. -/
def rotateArgs (expected replacement : Binding) (remaining ttl : ℕ) : RotateArgs :=
  ⟨expected, replacement, remaining, max 1 ttl, maxValidAccessLifetimeMs⟩

/-- The world after the rotation script has been run for a binding. -/
def record (w : World) (now : ℕ) (expected : Text) (result : RotateResult) (family : Family) :
    World :=
  { w with
    now := now
    family := family
    chain := match result with
      | .rotated binding => binding :: w.chain
      | _ => w.chain
    grants := result.token?.toList.map (fun binding => (expected, binding)) ++ w.grants
    revokedAt := if result.isRevoking then some now else w.revokedAt }

def rotate (w : World) (now : ℕ) (a : RotateArgs) : World :=
  w.record now a.expected.text (w.family.rotate now a).1 (w.family.rotate now a).2

/-- `_REVOKE_SESSION_LUA`; a mark for the access token that has been written stays if the session
is not revoked. -/
def revoke (w : World) (now jti jtiRequired sessionRequested : ℕ) : World :=
  if jtiRequired < 1 ∨ sessionRequested < 1 then { w with now := now }
  else
    match applyJtiRevocation now jtiRequired (w.jtis jti) with
    | none => { w with now := now }
    | some k =>
      let jtis := Function.update w.jtis jti (some k)
      match w.family.revoke now (max maxValidAccessLifetimeMs sessionRequested) with
      | none => { w with now := now, jtis := jtis }
      | some family =>
        { w with now := now, jtis := jtis, family := family, revokedAt := some now }

def next (w : World) : Action → Option World
  | .rotate now expected replacement remaining ttl =>
    if now < w.now then none
    else some (w.rotate now (rotateArgs expected replacement remaining ttl))
  | .revoke now jti jtiRequired sessionRequested =>
    if now < w.now then none else some (w.revoke now jti jtiRequired sessionRequested)

end World

/-- A family as `issue_pair` leaves it. -/
def issued (now : ℕ) (binding : Binding) (deadline : ℕ) (jtis : ℕ → Option Key) : World where
  now := now
  family := ⟨some ⟨.string binding.text, some deadline⟩, none⟩
  jtis := jtis
  chain := [binding.text]
  grants := []
  revokedAt := none

/-- The scripts on one family, under a clock that does not go back. -/
def refresh : Machine World Action where
  init w := ∃ now binding deadline jtis, w = issued now binding deadline jtis
  next := World.next

/-- A replacement has not been current before, unless it is the successor that the same binding
has got already. -/
def FreshReplacement (w : World) : Action → Prop
  | .rotate _ expected replacement _ _ =>
    replacement.text ∉ w.chain ∨ (expected.text, replacement.text) ∈ w.grants
  | .revoke _ _ _ _ => True

instance (w : World) (a : Action) : Decidable (FreshReplacement w a) := by
  unfold FreshReplacement
  cases a <;> infer_instance

end SmsPlatform.Auth
