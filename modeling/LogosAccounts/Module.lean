import LogosAccounts.Cache

/-! The twelve methods of the module provider. Calls are sequential, so an
account's mutex is always free; it is never poisoned because no step panics. -/

namespace LogosAccounts
open BetterSign hiding mk
open Functional (FiniteMap Machine)

inductive Event where
  | accountCreated (vlad : String)
  | accountUpdated (headCid : String)
  | pathDelegated (vlad path : String)
  | pathRevoked (vlad path : String)
  | error (message : String)
  deriving DecidableEq, Repr

/-- What a method returns, before it is put in writing. -/
inductive Response where
  | error (e : Error)
  | summary (account : AccountSummary)
  | plog (encoded : String)
  | removed
  | cleared (count : Nat)
  | value (found : PlogPathValue)
  | delegations (list : List PathDelegation)
  | challenge (issued : UpdateChallenge)
  | cancelled
  deriving DecidableEq, Repr

structure Reply where
  response : Response
  events : List Event
  deriving DecidableEq, Repr

def Response.isError : Response → Bool
  | .error _ => true
  | _ => false

/-- The returned string: JSON for everything but an exported p-log. -/
def Response.text [BetterSign] : Response → String
  | .error e => jsonToString (.obj [("error", .str e.text)])
  | .summary account => jsonToString account.toJson
  | .plog encoded => encoded
  | .removed => jsonToString (.obj [("removed", .bool true)])
  | .cleared count => jsonToString (.obj [("cleared", .number (toString count))])
  | .value found => found.toJsonString
  | .delegations list => jsonToString (.arr (list.map PathDelegation.toJson))
  | .challenge issued => jsonToString issued.toJson
  | .cancelled => jsonToString (.obj [("cancelled", .bool true)])

def errJson (e : Error) : Reply := ⟨.error e, [.error e.text]⟩

def silent (response : Response) : Reply := ⟨response, []⟩

/-- The events of a successful commit. -/
def commitEvents (summary : AccountSummary) (kind : UpdateKind) (path : Option String) :
    List Event :=
  .accountUpdated summary.headCid ::
    match kind, path with
    | .delegate, some p => [.pathDelegated summary.vlad p]
    | .revoke, some p => [.pathRevoked summary.vlad p]
    | _, _ => []

variable [BetterSign]

namespace AccountsModule

/-- Run `f` on the account of `vlad` and write the account back. -/
def withAccountMut (cache : AccountCache) (vlad : String) (f : PlogAccount → PlogAccount × Reply) :
    AccountCache × Reply :=
  match cache.get vlad with
  | .error e => (cache, errJson e)
  | .ok (key, account) =>
    let (account, reply) := f account
    (FiniteMap.insert cache key account, reply)

/-- Run the reader `f` on the account of `vlad`. -/
def withAccount (cache : AccountCache) (vlad : String) (f : PlogAccount → Reply) :
    AccountCache × Reply :=
  match cache.get vlad with
  | .error e => (cache, errJson e)
  | .ok (_, account) => (cache, f account)

def createAccount (cache : AccountCache) (pubkeyMultibase : String) (ambient : Ambient) :
    AccountCache × Reply :=
  match PlogAccount.create pubkeyMultibase ambient with
  | .error e => (cache, errJson e)
  | .ok (account, summary) =>
    -- the event goes out before the insertion it announces
    let created := Event.accountCreated summary.vlad
    match cache.insert summary.vlad account with
    | .error e => (cache, ⟨.error e, [created, .error e.text]⟩)
    | .ok cache => (cache, ⟨.summary summary, [created]⟩)

def importPlog (cache : AccountCache) (plogB64 : String) : AccountCache × Reply :=
  match PlogAccount.import plogB64 with
  | .error e => (cache, errJson e)
  | .ok (account, summary) =>
    match cache.insert summary.vlad account with
    | .error e => (cache, errJson e)
    | .ok cache => (cache, silent (.summary summary))

def exportPlog (cache : AccountCache) (vlad : String) : AccountCache × Reply :=
  withAccount cache vlad fun account => silent (.plog account.exportPlog)

def removePlog (cache : AccountCache) (vlad : String) : AccountCache × Reply :=
  match cache.remove vlad with
  | .error e => (cache, errJson e)
  | .ok cache => (cache, silent .removed)

def clearCache (cache : AccountCache) : AccountCache × Reply :=
  (∅, silent (.cleared cache.size))

def getValue (cache : AccountCache) (vlad path : String) : AccountCache × Reply :=
  withAccount cache vlad fun account =>
    match account.getValue path with
    | .error e => errJson e
    | .ok value => silent (.value value)

def listDelegations (cache : AccountCache) (vlad : String) : AccountCache × Reply :=
  withAccount cache vlad fun account =>
    match account.listDelegations with
    | .error e => errJson e
    | .ok list => silent (.delegations list)

omit [BetterSign] in
def challengeReply : Except Error UpdateChallenge → Reply
  | .error e => errJson e
  | .ok challenge => silent (.challenge challenge)

def prepareUpdate (cache : AccountCache) (vlad requestJson : String) (ambient : Ambient) :
    AccountCache × Reply :=
  withAccountMut cache vlad fun account =>
    let (result, account) := account.prepareUpdate requestJson ambient
    (account, challengeReply result)

def prepareDelegate (cache : AccountCache) (vlad path pubkeyMultibase : String)
    (ambient : Ambient) : AccountCache × Reply :=
  withAccountMut cache vlad fun account =>
    let (result, account) := account.prepareDelegate path pubkeyMultibase ambient
    (account, challengeReply result)

def prepareRevoke (cache : AccountCache) (vlad path : String) (ambient : Ambient) :
    AccountCache × Reply :=
  withAccountMut cache vlad fun account =>
    let (result, account) := account.prepareRevoke path ambient
    (account, challengeReply result)

def commitUpdate (cache : AccountCache) (vlad challengeId signatureMultibase : String)
    (ambient : Ambient) : AccountCache × Reply :=
  withAccountMut cache vlad fun account =>
    let (result, account) := account.commitUpdate challengeId signatureMultibase ambient
    match result with
    | .error e => (account, errJson e)
    | .ok (summary, kind, path) => (account, ⟨.summary summary, commitEvents summary kind path⟩)

def cancelUpdate (cache : AccountCache) (vlad challengeId : String) (ambient : Ambient) :
    AccountCache × Reply :=
  withAccountMut cache vlad fun account =>
    let (result, account) := account.cancelUpdate challengeId ambient
    match result with
    | .error e => (account, errJson e)
    | .ok () => (account, silent .cancelled)

end AccountsModule

/-- A call of one of the twelve methods. -/
inductive Call where
  | createAccount (pubkeyMultibase : String)
  | importPlog (plogB64 : String)
  | exportPlog (vlad : String)
  | removePlog (vlad : String)
  | clearCache
  | getValue (vlad path : String)
  | listDelegations (vlad : String)
  | prepareUpdate (vlad requestJson : String)
  | prepareDelegate (vlad path pubkeyMultibase : String)
  | prepareRevoke (vlad path : String)
  | commitUpdate (vlad challengeId signatureMultibase : String)
  | cancelUpdate (vlad challengeId : String)
  deriving DecidableEq, Repr

def AccountsModule.dispatch (cache : AccountCache) (call : Call) (ambient : Ambient) :
    AccountCache × Reply :=
  match call with
  | .createAccount pubkeyMultibase => createAccount cache pubkeyMultibase ambient
  | .importPlog plogB64 => importPlog cache plogB64
  | .exportPlog vlad => exportPlog cache vlad
  | .removePlog vlad => removePlog cache vlad
  | .clearCache => clearCache cache
  | .getValue vlad path => getValue cache vlad path
  | .listDelegations vlad => listDelegations cache vlad
  | .prepareUpdate vlad requestJson => prepareUpdate cache vlad requestJson ambient
  | .prepareDelegate vlad path pubkeyMultibase =>
    prepareDelegate cache vlad path pubkeyMultibase ambient
  | .prepareRevoke vlad path => prepareRevoke cache vlad path ambient
  | .commitUpdate vlad challengeId signatureMultibase =>
    commitUpdate cache vlad challengeId signatureMultibase ambient
  | .cancelUpdate vlad challengeId => cancelUpdate cache vlad challengeId ambient

/-- The module as a machine; it starts from the empty cache. -/
def accountsModule : Machine AccountCache (Call × Ambient) Reply where
  step cache action := AccountsModule.dispatch cache action.1 action.2

/-- A cache that some run of calls builds from the empty one. -/
def Reachable (cache : AccountCache) : Prop :=
  ∃ run : List (Call × Ambient), cache = accountsModule.after ∅ run

end LogosAccounts
