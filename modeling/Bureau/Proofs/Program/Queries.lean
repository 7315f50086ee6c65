import Bureau.Proofs.Serving.Records

/-!
Queries of the records as trees: which calls each of them makes, and what it makes of the replies.
-/

set_option autoImplicit false

namespace Bureau.Records

variable {α : Type} [Document α]

def foundIn (key : String) : Except StoreError (Option String) → Except FxError (Option α)
  | .ok text => MarketDesk.found key text
  | .error (.expired _) => .ok none
  | .error e => .error (.ofStore e)

theorem run_find (key : String) :
    (find key : ExceptT FxError Query (Option α)).run =
      .call (.get key) fun reply => .done (foundIn key reply) := by
  change Query.call (.get key) _ = _
  refine congrArg (Query.call (.get key)) ?_
  funext reply
  rcases reply with (detail | detail) | (_ | text)
  · rfl
  · rfl
  · rfl
  · simp only [Query.bind, Function.comp_apply, foundIn, MarketDesk.found]
    cases hread : (Document.read? text : Option α) with
    | none =>
        simp only [ExceptT.bindCont, pure, ExceptT.pure, ExceptT.mk, Query.bind, hread]
        rfl
    | some a =>
        simp only [ExceptT.bindCont, pure, ExceptT.pure, ExceptT.mk, Query.bind, hread]

theorem run_save (key : String) (a : α) (ttl : Duration) :
    (save key a ttl).run =
      .call (.set key (Document.write a) ttl) fun reply => .done (reply.mapError .ofStore) := by
  change Query.call (.set key (Document.write a) ttl) _ = _
  refine congrArg (Query.call (.set key (Document.write a) ttl)) ?_
  funext reply
  cases reply <;> rfl

def extendedText (lock : LockedRate) (expiry : Timestamp) : String :=
  Document.write { lock with expiresAt := some expiry }

theorem run_extendLock (id : LockId) (expiry : Timestamp) :
    (extendLock id expiry).run =
      .call (.get (lockKey id)) fun reply =>
        match (foundIn (lockKey id) reply : Except FxError (Option LockedRate)) with
        | .error e => .done (.error e)
        | .ok none => .done (.ok false)
        | .ok (some lock) =>
            .clock fun now =>
              .call (.replace (lockKey id) (extendedText lock expiry) (expiry.since now))
                fun reply => .done (reply.mapError .ofStore) := by
  rw [extendLock, ExceptT.run_bind, findLock, run_find]
  refine congrArg (Query.call (.get (lockKey id))) (funext fun reply => ?_)
  simp only [Query.bind]
  rcases (foundIn (lockKey id) reply : Except FxError (Option LockedRate)) with e | (_ | lock)
  · rfl
  · rfl
  · refine congrArg Query.clock (funext fun now => ?_)
    refine congrArg (Query.call _) (funext fun reply => ?_)
    cases reply <;> rfl

end Bureau.Records
