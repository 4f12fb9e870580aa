import LogosAccounts.Proof.CallStep
import LogosAccounts.Proof.Journal

/-! The journals of all cached accounts, taken from the calls of the module and their
responses. Whatever calls on whatever accounts come in between, a cached log is the
one last installed under its key with that key's own committed operations, one after
the other. -/

namespace LogosAccounts
open BetterSign hiding mk
open Functional

section
variable [BetterSign]

/-- What the module's response to an operation adds to the journal of its account. -/
def Journal.observeResponse (journal : Journal) (op : AccountOp) (response : Response) : Journal where
  issued :=
    match response with
    | .challenge challenge => Function.update journal.issued challenge.challengeId (some op)
    | _ => journal.issued
  committed := journal.committed ++
    match op, response with
    | .commitUpdate id signature, .summary _ =>
      (journal.issued id).toList.map fun op => (op, signature)
    | _, _ => []

/-- The log last installed under a key, and the journal since. -/
structure AccountBook where
  base : Log
  journal : Journal

def AccountBook.note (op : AccountOp) (response : Response) (book : AccountBook) : AccountBook :=
  { book with journal := book.journal.observeResponse op response }

abbrev CacheBooks : Type := VladHash → Option AccountBook

namespace CacheBooks

def edit (books : CacheBooks) (vladMultibase : String)
    (change : Option AccountBook → Option AccountBook) : CacheBooks :=
  match AccountCache.keyFromMultibase vladMultibase with
  | .ok key => Function.update books key (change (books key))
  | .error _ => books

def record (books : CacheBooks) (action : Call × Ambient) (response : Response) : CacheBooks :=
  match action.1.installs action.2 with
  | some (.ok (account, summary)) => books.edit summary.vlad fun _ => some ⟨account.log, Journal.blank⟩
  | some (.error _) => books
  | none =>
    match action.1, action.1.accountOp with
    | .removePlog vlad, _ => books.edit vlad fun _ => none
    | .clearCache, _ => fun _ => none
    | _, some (vlad, op) => books.edit vlad fun book => book.map (AccountBook.note op response)
    | _, none => books

def observe (books : CacheBooks) (action : Call × Ambient) (reply : Reply) : CacheBooks :=
  if reply.response.isError then books else books.record action reply.response

/-- The books of a run of the module, from the empty cache on. -/
def ofRun (run : List (Call × Ambient)) : CacheBooks :=
  accountsModule.notes observe ∅ (fun _ => none) run

end CacheBooks

theorem Journal.observe_toReply (journal : Journal) (op : AccountOp) (ambient : Ambient)
    (reply : AccountReply) :
    journal.observeResponse op reply.toReply.response = journal.observe (op, ambient) reply := by
  cases reply with
  | challenge result =>
    cases result with
    | error e => cases op <;> rfl
    | ok challenge => cases op <;> rfl
  | committed result =>
    cases result with
    | error e => cases op <;> rfl
    | ok done => cases op <;> rfl
  | cancelled result =>
    cases result with
    | error e => cases op <;> rfl
    | ok done => cases op <;> rfl

theorem AccountBook.note_failed (op : AccountOp) {response : Response}
    (failed : response.isError = true) : AccountBook.note op response = id := by
  funext book
  cases response with
  | error e => cases op <;> simp [AccountBook.note, Journal.observeResponse]
  | _ => cases failed

/-- The account is the base of its book with the journal done to it. -/
structure KeptInBook (book : AccountBook) (account : PlogAccount) : Prop where
  root : RootKeyParses
  verified : FullyVerified book.base
  agrees : JournalAgrees account book.journal
  serial : serialLog.after (some book.base) book.journal.committed = some account.log

def BooksAgree (cache : AccountCache) (books : CacheBooks) : Prop :=
  ∀ key, Option.Rel KeptInBook (books key) (cache.lookup key)

theorem KeptInBook.installed {account : PlogAccount} (opened : account.Opened) :
    KeptInBook ⟨account.log, Journal.blank⟩ account where
  root := opened.rootKeyParses
  verified := opened.verified
  agrees := .blank opened
  serial := rfl

theorem KeptInBook.next {book : AccountBook} {account : PlogAccount} (kept : KeptInBook book account)
    (append : AppendLaws) (op : AccountOp) (ambient : Ambient) :
    KeptInBook (book.note op (account.perform op ambient).2.toReply.response)
      (account.perform op ambient).1 := by
  unfold AccountBook.note
  rw [Journal.observe_toReply _ op ambient]
  refine ⟨kept.root, kept.verified, kept.agrees.next append (op, ambient), ?_⟩
  have step := kept.agrees.serial append kept.root (op, ambient)
  change serialLog.after (some book.base) (book.journal.committed ++ _) = _
  rw [Machine.after_append, kept.serial]
  exact step.symm

theorem BooksAgree.edit {cache : AccountCache} {books : CacheBooks} (agree : BooksAgree cache books)
    {vladMultibase : String} {key : VladHash}
    (keyed : AccountCache.keyFromMultibase vladMultibase = .ok key) (entry : Option PlogAccount)
    (change : Option AccountBook → Option AccountBook)
    (own : Option.Rel KeptInBook (change (books key)) entry) :
    BooksAgree (cache.set key entry) (books.edit vladMultibase change) := by
  unfold CacheBooks.edit
  rw [keyed]
  intro other
  rw [FiniteMap.lookup_set]
  by_cases same : other = key
  · subst other
    rw [if_pos rfl]
    simpa using own
  · rw [if_neg same]
    simpa [same] using agree other

theorem BooksAgree.next {cache : AccountCache} {books : CacheBooks} (agree : BooksAgree cache books)
    (append : AppendLaws) (action : Call × Ambient) :
    BooksAgree (accountsModule.next cache action)
      (books.observe action (accountsModule.reply cache action)) := by
  obtain ⟨call, ambient⟩ := action
  change BooksAgree (AccountsModule.dispatch cache call ambient).1
    (books.observe (call, ambient) (AccountsModule.dispatch cache call ambient).2)
  have outcome := dispatch_outcome cache call ambient
  generalize AccountsModule.dispatch cache call ambient = result at outcome ⊢
  cases outcome with
  | unaddressed vlad addressed e failed => exact agree
  | rejected e failed => exact agree
  | unplaced account summary installs e unkeyed => exact agree
  | installed account summary installs key keyed =>
    have noted : books.observe (call, ambient) ⟨.summary summary, call.installEvents summary⟩ =
        books.edit summary.vlad fun _ => some ⟨account.log, Journal.blank⟩ := by
      simp only [CacheBooks.observe, Response.isError, CacheBooks.record, installs]
      rfl
    rw [noted]
    exact agree.edit keyed (some account) _ (.some (KeptInBook.installed (installs_opened installs)))
  | removed vlad named key account found =>
    obtain ⟨decoded, isVlad, rfl, _⟩ := AccountCache.get_ok.mp found
    subst named
    exact agree.edit (AccountCache.keyFromMultibase_ok.mpr ⟨decoded, isVlad, rfl⟩) none (fun _ => none)
      .none
  | cleared named =>
    subst named
    intro key
    exact .none
  | read vlad read reads key account found =>
    have noted : books.observe (call, ambient) (read account) = books := by
      unfold CacheBooks.observe
      cases call <;> cases reads <;> exact ite_self books
    rw [noted]
    exact agree
  | acted vlad op acts key account found =>
    obtain ⟨decoded, isVlad, rfl, present⟩ := AccountCache.get_ok.mp found
    obtain ⟨book, noted, kept⟩ : ∃ book, books (vladHash decoded) = some book ∧ KeptInBook book account := by
      have own := agree (vladHash decoded)
      rw [present] at own
      generalize books (vladHash decoded) = noted at own ⊢
      cases own with
      | some kept => exact ⟨_, rfl, kept⟩
    have next := kept.next append op ambient
    have keyed := AccountCache.keyFromMultibase_ok.mpr ⟨decoded, isVlad, rfl⟩
    have edited : books.observe (call, ambient) (account.perform op ambient).2.toReply =
        books.edit vlad fun book =>
          book.map (AccountBook.note op (account.perform op ambient).2.toReply.response) := by
      generalize (account.perform op ambient).2.toReply = reply
      cases failed : reply.response.isError with
      | true =>
        have unchanged : books.edit vlad (fun book => book) = books := by
          simp [CacheBooks.edit, keyed]
        simp [CacheBooks.observe, failed, AccountBook.note_failed op failed, unchanged]
      | false =>
        simp only [CacheBooks.observe, failed]
        cases call <;> cases acts <;> rfl
    rw [edited]
    apply agree.edit keyed (some (account.perform op ambient).1)
    rw [noted]
    exact .some next

theorem books_agree (append : AppendLaws) (run : List (Call × Ambient)) :
    BooksAgree (accountsModule.after ∅ run) (CacheBooks.ofRun run) := by
  have first : BooksAgree ∅ fun _ => none := fun key => .none
  exact accountsModule.notes_preserve first fun _ _ action _ agree => agree.next append action

/-- After any run of the module an account is cached under a key exactly when the
key has a book, and then its log is the base of the book with the operations
committed under that key since, each prepared, signed and appended in one go. -/
theorem cached_logs_serial (append : AppendLaws) (run : List (Call × Ambient)) (key : VladHash) :
    Option.Rel (fun book account =>
        serialLog.after (some book.base) book.journal.committed = some (PlogAccount.log account))
      (CacheBooks.ofRun run key) ((accountsModule.after ∅ run).lookup key) := by
  have own := books_agree append run key
  generalize CacheBooks.ofRun run key = book at own ⊢
  generalize (accountsModule.after ∅ run).lookup key = account at own ⊢
  cases own with
  | some kept => exact .some kept.serial
  | none => exact .none

end

section
open Reference

/-- A delegation is committed after a revocation was prepared and a commit refused. -/
def crowdedCalls : List (Call × Ambient) :=
  [(.createAccount "u5wEC", sampleAmbient 0 9), (.prepareRevoke "uhwAA6eE" "/b/", sampleAmbient 0 1),
    (.prepareDelegate "uhwAA6eE" "/a/" "u5wkJ", sampleAmbient 1 0),
    (.commitUpdate "uhwAA6eE" "u" "uAQL8CM0U", sampleAmbient 2 9),
    (.commitUpdate "uhwAA6eE" delegationChallenge.challengeId "uAQL8CM0U", sampleAmbient 3 9)]

theorem cached_logs_serial_crowded :
    ((AccountCache.keyFromMultibase "uhwAA6eE").toOption.bind fun key =>
        (CacheBooks.ofRun crowdedCalls key).map fun book => book.journal.committed) =
      some [(.prepareDelegate "/a/" "u5wkJ", "uAQL8CM0U")] ∧
    ∀ key, Option.Rel (fun book account =>
        serialLog.after (some book.base) book.journal.committed = some (PlogAccount.log account))
      (CacheBooks.ofRun crowdedCalls key) ((accountsModule.after ∅ crowdedCalls).lookup key) := by
  refine ⟨?_, fun key => cached_logs_serial appendLaws crowdedCalls key⟩
  decide +kernel

end

end LogosAccounts
