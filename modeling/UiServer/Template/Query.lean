import UiServer.Lib.CMem

/-!
# The words of a query

`as_temp_split_query_terms` cuts the query string at each space, copies the word in
front of the cut and puts the space back. The words are `as_query_term_t` records of
64 bytes and a length; they lie behind one another, so a word that is too long for
its record is copied over the length and the records behind it.

A string is the list of its bytes; a zero in the list is where it is cut.
-/

namespace UiServer

open CMem

def maxQueryTermsNum : Nat := 32

def maxQueryTermLen : Nat := 64

/-- `sizeof(as_query_term_t)`. -/
def asQueryTermSize : Nat := maxQueryTermLen + 4

/-- `as_query_t`: `num`, and the bytes of `query_term`. -/
structure AsQuery where
  num : Nat
  queryTerm : Mem

/-- Where `query_term[i]` begins. -/
def termAt (i : Nat) : Nat := asQueryTermSize * i

/-- `strcpy` to the next record, its length, and `num++`. -/
def AsQuery.add (q : AsQuery) (text : Bytes) : AsQuery :=
  let mem := store q.queryTerm (termAt q.num) (text ++ [0])
  ⟨q.num + 1, store mem (termAt q.num + maxQueryTermLen) (leBytes 4 text.length)⟩

/-- `while (*p != '\0' && *p != ' ') p++`. -/
def untilSpace (str : Bytes) (p : Nat) : Nat :=
  p + ((str.drop p).takeWhile fun c => c != 0 && c != 32).length

/-- `while (*p == ' ') p++`. -/
def skipSpaces (str : Bytes) (p : Nat) : Nat :=
  p + ((str.drop p).takeWhile (· == 32)).length

/-- The string as it stands, the two pointers into it, and the words so far. -/
structure SplitState where
  str : Bytes
  p : Nat
  pf : Nat
  query : AsQuery

/-- The outer loop, and whether the function returns in it because the table is
full. Each round moves on by at least one byte, so the length of the string is
enough fuel. -/
def splitLoop : Nat → SplitState → SplitState × Bool
  | 0, st => (st, false)
  | fuel + 1, st =>
      if st.str.getD st.p 0 = 0 then (st, false)
      else
        let p := untilSpace st.str st.p
        if st.str.getD p 0 = 0 then ({ st with p }, false)
        else if st.pf < p then
          let str := st.str.set p 0
          let text := cstr (str.drop st.pf)
          let query := st.query.add text
          if query.num = maxQueryTermsNum then (⟨str, p, st.pf, query⟩, true)
          else
            let str := str.set p 32
            let query := if text.length = 0 then { query with num := query.num - 1 } else query
            let p := skipSpaces str (p + 1)
            splitLoop fuel ⟨str, p, p, query⟩
        else
          let p := skipSpaces st.str p
          splitLoop fuel ⟨st.str, p, p, st.query⟩

/-- `as_temp_split_query_terms` of a string: what it leaves of the string and of the
table. It returns `0`. -/
def asTempSplitQueryTerms (queryTerms : Bytes) (queryT : AsQuery) : Bytes × AsQuery :=
  let query := { queryT with num := 0 }
  if queryTerms.length = 0 then (queryTerms, query)
  else
    let (st, full) := splitLoop (queryTerms.length + 1) ⟨queryTerms, 0, 0, query⟩
    if full then (st.str, st.query)
    else if st.pf < st.p then (st.str, st.query.add (cstr (st.str.drop st.pf)))
    else (st.str, st.query)

/-- The bytes of `query_term[i].term`. -/
def AsQuery.term (q : AsQuery) (i : Nat) : Bytes :=
  read q.queryTerm (termAt i) maxQueryTermLen

/-- `query_term[i].len`. -/
def AsQuery.len (q : AsQuery) (i : Nat) : Nat :=
  leNat (read q.queryTerm (termAt i + maxQueryTermLen) 4)

end UiServer
