import DockLink.Control.Decoder

/-!
# What a transaction says

The result of a transaction as its bytes tell it, taken as a whole. A result that the first bytes
settle is the result, whatever follows; a transaction that ends before that cuts its command.
-/

namespace DockLink

/-- A request, with the content of its packet. -/
inductive Message where
  | version
  | status (request : StatusRequest)
  | interrupt (request : InterruptRequest)
  | receiveBlob
  | sendBlob (contentType : ContentType) (content : Bytes)
deriving DecidableEq

/-- A result, with the content of its packet. -/
abbrev Notice := Except CommandError Message

namespace Transaction

/-- The result of a `sendBlob`, if the bytes after its code settle it. `room` tells whether there is
a block for the blob. -/
def blobVerdict? (limit : Nat) (room : Bool) : Bytes → Option Notice
  | t₀ :: t₁ :: l₀ :: l₁ :: body =>
    let length := (Bytes.word16 l₀ l₁).toNat
    if length > limit then some (.error .blobTooLong)
    else if length ≠ 0 ∧ room = false then some (.error .outOfMemory)
    else if body.length < length then none
    else some (.ok (.sendBlob ⟨Bytes.word16 t₀ t₁⟩ (body.take length)))
  | _ => none

/-- The result of a `status`, if the bytes after its code settle it. -/
def statusVerdict? : Bytes → Option Notice
  | f₀ :: f₁ :: m₀ :: m₁ :: _ =>
    some (.ok (.status { flags := ⟨Bytes.word16 f₀ f₁⟩, mask := ⟨Bytes.word16 m₀ m₁⟩ }))
  | _ => none

/-- The result of an `interrupt`, if the bytes after its code settle it. -/
def interruptVerdict? : Bytes → Option Notice
  | m₀ :: m₁ :: _ => some (.ok (.interrupt { mask := ⟨Bytes.word16 m₀ m₁⟩ }))
  | _ => none

/-- The result of a transaction, if its first bytes settle it. -/
def verdict? (limit : Nat) (room : Bool) : Bytes → Option Notice
  | [] => none
  | 0 :: _ => some (.ok .version)
  | 1 :: arguments => statusVerdict? arguments
  | 2 :: arguments => interruptVerdict? arguments
  | 3 :: blob => blobVerdict? limit room blob
  | 4 :: _ => some (.ok .receiveBlob)
  | code :: _ => some (.error (.unknown code))

/-- The result of a transaction that ends before its result is settled. -/
def cutNotice? : Bytes → Option Notice
  | [] => none
  | code :: _ => (Command.ofCode? code).map fun command => .error (.truncated command)

/-- The result of a whole transaction. -/
def read (limit : Nat) (room : Bool) (bytes : Bytes) : Option Notice :=
  (verdict? limit room bytes).or (cutNotice? bytes)

/-- The length that the envelope of a blob announces, if it is complete. -/
def announced? : Bytes → Option Nat
  | code :: _ :: _ :: l₀ :: l₁ :: _ =>
    if code = Command.sendBlob.code then some (Bytes.word16 l₀ l₁).toNat else none
  | _ => none

variable {limit : Nat} {room : Bool} {bytes : Bytes} {notice : Notice}

theorem verdict?_sendBlob (limit : Nat) (room : Bool) (blob : Bytes) :
    verdict? limit room (Command.sendBlob.code :: blob) = blobVerdict? limit room blob := rfl

theorem blobVerdict?_append (h : blobVerdict? limit room bytes = some notice) (more : Bytes) :
    blobVerdict? limit room (bytes ++ more) = some notice := by
  match bytes with
  | t₀ :: t₁ :: l₀ :: l₁ :: body =>
      simp only [List.cons_append, blobVerdict?] at h ⊢
      split
      · rename_i hlong
        rwa [if_pos hlong] at h
      · rename_i hlong
        rw [if_neg hlong] at h
        split
        · rename_i hroom
          rwa [if_pos hroom] at h
        · rename_i hroom
          rw [if_neg hroom] at h
          split at h
          · cases h
          · rename_i hlength
            rw [if_neg (by rw [List.length_append]; omega),
              List.take_append_of_le_length (Nat.not_lt.1 hlength)]
            exact h
  | [] => cases h
  | [_] => cases h
  | [_, _] => cases h
  | [_, _, _] => cases h

theorem statusVerdict?_append (h : statusVerdict? bytes = some notice) (more : Bytes) :
    statusVerdict? (bytes ++ more) = some notice := by
  match bytes with
  | _ :: _ :: _ :: _ :: _ => exact h
  | [] => cases h
  | [_] => cases h
  | [_, _] => cases h
  | [_, _, _] => cases h

theorem interruptVerdict?_append (h : interruptVerdict? bytes = some notice) (more : Bytes) :
    interruptVerdict? (bytes ++ more) = some notice := by
  match bytes with
  | _ :: _ :: _ => exact h
  | [] => cases h
  | [_] => cases h

/-- What is settled is settled. -/
theorem verdict?_append (h : verdict? limit room bytes = some notice) (more : Bytes) :
    verdict? limit room (bytes ++ more) = some notice := by
  unfold verdict? at h
  split at h
  · cases h
  · exact h
  · exact statusVerdict?_append h more
  · exact interruptVerdict?_append h more
  · exact blobVerdict?_append h more
  · exact h
  · rw [List.cons_append, verdict?]
    · exact h
    all_goals assumption

theorem announced?_append {n : Nat} (h : announced? bytes = some n) (more : Bytes) :
    announced? (bytes ++ more) = some n := by
  match bytes with
  | code :: _ :: _ :: l₀ :: l₁ :: _ => exact h
  | [] => cases h
  | [_] => cases h
  | [_, _] => cases h
  | [_, _, _] => cases h
  | [_, _, _, _] => cases h

theorem announced?_eq_none_of_append {more : Bytes} (h : announced? (bytes ++ more) = none) :
    announced? bytes = none := by
  cases hn : announced? bytes with
  | none => rfl
  | some n =>
      rw [announced?_append hn] at h
      cases h

theorem announced?_of_code_ne {code : UInt8} (h : code ≠ Command.sendBlob.code) (rest : Bytes) :
    announced? (code :: rest) = none := by
  unfold announced?
  split
  · rename_i heq
    obtain ⟨rfl, -⟩ := List.cons.inj heq
    exact if_neg h
  · rfl

theorem announced?_of_verdict? (h : verdict? limit room bytes = some notice) (more : Bytes) :
    announced? (bytes ++ more) = announced? bytes := by
  match bytes with
  | [] => cases h
  | code :: rest =>
      by_cases hcode : code = Command.sendBlob.code
      · subst hcode
        rw [verdict?_sendBlob] at h
        match rest with
        | _ :: _ :: _ :: _ :: _ => rfl
        | [] => cases h
        | [_] => cases h
        | [_, _] => cases h
        | [_, _, _] => cases h
      · rw [List.cons_append, announced?_of_code_ne hcode, announced?_of_code_ne hcode]

/-- A transaction has one result, unless it is empty. -/
theorem isSome_read (limit : Nat) (room : Bool) (bytes : Bytes) :
    (read limit room bytes).isSome ↔ bytes ≠ [] := by
  unfold read verdict?
  split
  · exact iff_of_false nofun fun h => h rfl
  · exact iff_of_true rfl nofun
  · exact iff_of_true (by rw [Option.isSome_or]; exact Bool.or_true _) nofun
  · exact iff_of_true (by rw [Option.isSome_or]; exact Bool.or_true _) nofun
  · exact iff_of_true (by rw [Option.isSome_or]; exact Bool.or_true _) nofun
  · exact iff_of_true rfl nofun
  · exact iff_of_true rfl nofun

end Transaction

end DockLink
