import LogosAccounts.Functional.SharedMap
import LogosAccounts.Module

/-! The cache with the handles it gives out (`Arc<Mutex<PlogAccount>>`), and the
module's methods on it. Whoever holds a handle may lock the account and work on it
after the entry is gone. A lock is held for a whole operation, so the operations of
all holders are steps in some order. -/

namespace LogosAccounts
open BetterSign hiding mk
open Functional (FiniteMap Machine SharedMap)

/-- The accounts given out so far, and the entries of the map. -/
abbrev SharedCache [BetterSign] := SharedMap VladHash PlogAccount

variable [BetterSign]

namespace SharedCache

def new : SharedCache := ∅

def len (cache : SharedCache) : Nat := cache.entries.size

def isEmpty (cache : SharedCache) : Bool := cache.len == 0

def keyFromVlad (vlad : Vlad) : VladHash := vladHash vlad

def insertByHash (cache : SharedCache) (key : VladHash) (account : PlogAccount) : SharedCache :=
  SharedMap.insert cache key account

def insert (cache : SharedCache) (vladMultibase : String) (account : PlogAccount) :
    Except Error SharedCache := do
  let key ← AccountCache.keyFromMultibase vladMultibase
  return cache.insertByHash key account

def getByHash (cache : SharedCache) (key : VladHash) : Except Error Nat :=
  match cache.entries.lookup key with
  | some handle => .ok handle
  | none => .error (.accountNotCached (AccountCache.hashHexShort key))

def get (cache : SharedCache) (vladMultibase : String) : Except Error Nat := do
  let key ← AccountCache.keyFromMultibase vladMultibase
  cache.getByHash key

def contains (cache : SharedCache) (vladMultibase : String) : Except Error Bool := do
  let key ← AccountCache.keyFromMultibase vladMultibase
  return (cache.entries.lookup key).isSome

def remove (cache : SharedCache) (vladMultibase : String) : Except Error SharedCache := do
  let key ← AccountCache.keyFromMultibase vladMultibase
  match cache.entries.lookup key with
  | none => throw (.accountNotCached (AccountCache.hashHexShort key))
  | some _ => return SharedMap.erase cache key

/-- Drop all entries; how many there were. -/
def clear (cache : SharedCache) : Nat × SharedCache := (cache.len, SharedMap.clear cache)

end SharedCache

inductive CacheOp where
  | insert (vladMultibase : String) (account : PlogAccount)
  | insertByHash (key : VladHash) (account : PlogAccount)
  | get (vladMultibase : String)
  | getByHash (key : VladHash)
  | contains (vladMultibase : String)
  | len
  | isEmpty
  | remove (vladMultibase : String)
  | clear
  /-- Lock the account of a handle and perform an operation on it. -/
  | lock (handle : Nat) (op : AccountOp) (ambient : Ambient)

inductive CacheReply where
  | done (result : Except Error Unit)
  | handle (result : Except Error Nat)
  | present (result : Except Error Bool)
  | count (n : Nat)
  | empty (holds : Bool)
  /-- `none` for a handle that was never given out; no holder has one. -/
  | account (reply : Option AccountReply)

namespace SharedCache

def perform (cache : SharedCache) : CacheOp → SharedCache × CacheReply
  | .insert vladMultibase account =>
    match cache.insert vladMultibase account with
    | .error e => (cache, .done (.error e))
    | .ok cache => (cache, .done (.ok ()))
  | .insertByHash key account => (cache.insertByHash key account, .done (.ok ()))
  | .get vladMultibase => (cache, .handle (cache.get vladMultibase))
  | .getByHash key => (cache, .handle (cache.getByHash key))
  | .contains vladMultibase => (cache, .present (cache.contains vladMultibase))
  | .len => (cache, .count cache.len)
  | .isEmpty => (cache, .empty cache.isEmpty)
  | .remove vladMultibase =>
    match cache.remove vladMultibase with
    | .error e => (cache, .done (.error e))
    | .ok cache => (cache, .done (.ok ()))
  | .clear => (cache.clear.2, .count cache.clear.1)
  | .lock handle op ambient =>
    match cache.read handle with
    | none => (cache, .account none)
    | some account =>
      let (account, reply) := account.perform op ambient
      (cache.write handle account, .account (some reply))

end SharedCache

def sharedCache : Machine SharedCache CacheOp CacheReply where
  step cache op := cache.perform op

namespace SharedModule

def withAccountMut (cache : SharedCache) (vlad : String) (f : PlogAccount → PlogAccount × Reply) :
    SharedCache × Reply :=
  match cache.get vlad with
  | .error e => (cache, errJson e)
  | .ok entry =>
    match cache.read entry with
    -- never taken: the map holds handles on live accounts only
    | none => (cache, errJson (.panic "dangling handle"))
    | some guard =>
      let (guard, reply) := f guard
      (cache.write entry guard, reply)

def withAccount (cache : SharedCache) (vlad : String) (f : PlogAccount → Reply) :
    SharedCache × Reply :=
  match cache.get vlad with
  | .error e => (cache, errJson e)
  | .ok entry =>
    match cache.read entry with
    | none => (cache, errJson (.panic "dangling handle"))
    | some guard => (cache, f guard)

def createAccount (cache : SharedCache) (pubkeyMultibase : String) (ambient : Ambient) :
    SharedCache × Reply :=
  match PlogAccount.create pubkeyMultibase ambient with
  | .error e => (cache, errJson e)
  | .ok (account, summary) =>
    let created := Event.accountCreated summary.vlad
    match cache.insert summary.vlad account with
    | .error e => (cache, ⟨.error e, [created, .error e.text]⟩)
    | .ok cache => (cache, ⟨.summary summary, [created]⟩)

def importPlog (cache : SharedCache) (plogB64 : String) : SharedCache × Reply :=
  match PlogAccount.import plogB64 with
  | .error e => (cache, errJson e)
  | .ok (account, summary) =>
    match cache.insert summary.vlad account with
    | .error e => (cache, errJson e)
    | .ok cache => (cache, silent (.summary summary))

def removePlog (cache : SharedCache) (vlad : String) : SharedCache × Reply :=
  match cache.remove vlad with
  | .error e => (cache, errJson e)
  | .ok cache => (cache, silent .removed)

def clearCache (cache : SharedCache) : SharedCache × Reply :=
  (cache.clear.2, silent (.cleared cache.clear.1))

def dispatch (cache : SharedCache) (call : Call) (ambient : Ambient) : SharedCache × Reply :=
  match call with
  | .createAccount pubkeyMultibase => createAccount cache pubkeyMultibase ambient
  | .importPlog plogB64 => importPlog cache plogB64
  | .exportPlog vlad => withAccount cache vlad fun account => silent (.plog account.exportPlog)
  | .removePlog vlad => removePlog cache vlad
  | .clearCache => clearCache cache
  | .getValue vlad path => withAccount cache vlad fun account =>
    match account.getValue path with
    | .error e => errJson e
    | .ok value => silent (.value value)
  | .listDelegations vlad => withAccount cache vlad fun account =>
    match account.listDelegations with
    | .error e => errJson e
    | .ok list => silent (.delegations list)
  | .prepareUpdate vlad requestJson => withAccountMut cache vlad fun account =>
    let (result, account) := account.prepareUpdate requestJson ambient
    (account, AccountsModule.challengeReply result)
  | .prepareDelegate vlad path pubkeyMultibase => withAccountMut cache vlad fun account =>
    let (result, account) := account.prepareDelegate path pubkeyMultibase ambient
    (account, AccountsModule.challengeReply result)
  | .prepareRevoke vlad path => withAccountMut cache vlad fun account =>
    let (result, account) := account.prepareRevoke path ambient
    (account, AccountsModule.challengeReply result)
  | .commitUpdate vlad challengeId signatureMultibase => withAccountMut cache vlad fun account =>
    let (result, account) := account.commitUpdate challengeId signatureMultibase ambient
    match result with
    | .error e => (account, errJson e)
    | .ok (summary, kind, path) => (account, ⟨.summary summary, commitEvents summary kind path⟩)
  | .cancelUpdate vlad challengeId => withAccountMut cache vlad fun account =>
    let (result, account) := account.cancelUpdate challengeId ambient
    match result with
    | .error e => (account, errJson e)
    | .ok () => (account, silent .cancelled)

end SharedModule

/-- The module as it is: its cache holds shared handles. -/
def sharedModule : Machine SharedCache (Call × Ambient) Reply where
  step cache action := SharedModule.dispatch cache action.1 action.2

end LogosAccounts
