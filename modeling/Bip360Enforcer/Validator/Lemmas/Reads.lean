import Bip360Enforcer.Validator.Infos

/-!
# Programs that only read the databases
-/

namespace Bip360Enforcer.Validator

variable {ε ε' α β υ : Type} {C : Crypto}

/-- The program changes no database, whether it returns or fails. -/
def ReadsOnly (x : Db ε α) : Prop := ∀ s, (x s).2.dbs = s.dbs

namespace ReadsOnly

theorem pure (a : α) : ReadsOnly (pure a : Db ε α) := fun _ => rfl

theorem fail (e : ε) : ReadsOnly (Program.fail e : Db ε α) := fun _ => rfl

theorem bind {x : Db ε β} {f : β → Db ε α} (hx : ReadsOnly x) (hf : ∀ b, ReadsOnly (f b)) :
    ReadsOnly (x >>= f) := by
  intro s
  have hs := hx s
  rw [Program.bind_apply]
  rcases hrun : x s with ⟨r, t⟩
  rw [hrun] at hs
  cases r with
  | ok b => exact (hf b t).trans hs
  | error e => exact hs

theorem mapError {f : ε' → ε} {x : Db ε' α} (hx : ReadsOnly x) : ReadsOnly (Program.mapError f x) := hx

variable [FromDb ε]

theorem access : ReadsOnly (access : Db ε Unit) := by
  intro s
  rw [Validator.access]
  split <;> rfl

theorem read (f : Dbs → α) : ReadsOnly (read f : Db ε α) := access.bind fun _ _ => rfl

theorem tryGet (db : Dbs → HashDb υ) (key : BlockHash) : ReadsOnly (tryGet db key : Db ε (Option υ)) :=
  read _

theorem require {x : Db ε (Option α)} (hx : ReadsOnly x) : ReadsOnly (Validator.require x) := by
  apply hx.bind
  intro found
  cases found with
  | none => exact fail _
  | some a => exact pure a

end ReadsOnly

/-! ## Headers and infos -/

theorem readsOnly_getHeaderInfo (blockHash : BlockHash) : ReadsOnly (getHeaderInfo C blockHash) := by
  apply (ReadsOnly.tryGet _ _).bind
  intro found
  cases found with
  | none => exact .fail _
  | some header =>
      apply (ReadsOnly.tryGet _ _).bind
      intro height
      cases height with
      | none => exact .fail _
      | some height => exact .pure _

theorem readsOnly_tryGetHeaderInfo (blockHash : BlockHash) :
    ReadsOnly (BlockHashDbs.tryGetHeaderInfo C blockHash) := by
  apply (ReadsOnly.tryGet _ _).bind
  intro found
  cases found with
  | none => exact .pure _
  | some header =>
      change ReadsOnly (if _ then _ else _)
      split
      · exact .fail _
      · apply (ReadsOnly.tryGet _ _).bind
        intro height
        cases height with
        | none => exact .fail _
        | some height => exact .pure _

theorem readsOnly_ancestorInfos (n : Nat) (ancestor : BlockHash) :
    ReadsOnly (BlockHashDbs.ancestorInfos C n ancestor) := by
  induction n generalizing ancestor with
  | zero => exact .pure _
  | succ n ih =>
      rw [BlockHashDbs.ancestorInfos]
      split
      · exact .pure _
      · apply (readsOnly_tryGetHeaderInfo ancestor).bind
        intro found
        cases found with
        | none => exact .pure _
        | some info => exact (ih _).bind fun _ => .pure _

theorem readsOnly_tryGetBlockInfo (blockHash : BlockHash) :
    ReadsOnly (BlockHashDbs.tryGetBlockInfo blockHash) := by
  apply (ReadsOnly.tryGet _ _).bind
  intro found
  cases found with
  | none => exact .pure _
  | some coinbaseTxid => exact .pure _

theorem readsOnly_blockInfosOf (infos : List HeaderInfo) : ReadsOnly (BlockHashDbs.blockInfosOf infos) := by
  induction infos with
  | nil => exact .pure _
  | cons info infos ih =>
      apply (readsOnly_tryGetBlockInfo _).bind
      intro found
      cases found with
      | none => exact .pure _
      | some blockInfo => exact ih.bind fun _ => .pure _

theorem readsOnly_tryGetBlockInfos (blockHash : BlockHash) (n : Nat) :
    ReadsOnly (tryGetBlockInfos C blockHash n) := by
  apply ReadsOnly.access.bind
  intro _
  apply ReadsOnly.bind
  · apply (readsOnly_tryGetHeaderInfo blockHash).bind
    intro found
    cases found with
    | none => exact .pure _
    | some info => exact (readsOnly_ancestorInfos n _).bind fun _ => .pure _
  · intro infos
    cases infos with
    | none => exact .pure _
    | some infos =>
        apply (readsOnly_tryGetBlockInfo blockHash).bind
        intro found
        cases found with
        | none => exact .pure _
        | some info => exact (readsOnly_blockInfosOf _).bind fun _ => .pure _

end Bip360Enforcer.Validator
