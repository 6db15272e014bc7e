import TptErp.Lib.SqlLex
import TptErp.IdText
import TptErp.Tenant.Auth

/-!
# Row-level security

The statements that turn row-level security on and give a table its policy.  Table, column and policy
names are put into them as quoted identifiers.

    quote_ident name        one token, the identifier name
    every statement         its own words, and each name as an identifier      (rls_lex)
-/

namespace TptErp

namespace Tenant.Rls

open SqlLex

/-- The setting that carries the tenant of the session. -/
def TENANT_GUC : String := "app.tenant_id"

/-- `str::replace` of a character. -/
def replace (s : String) (old : Char) (new : String) : String :=
  String.ofList (s.toList.flatMap fun c => if c = old then new.toList else [c])

def quoteIdent (name : String) : String := "\"" ++ replace name '"' "\"\"" ++ "\""

def setTenantCommand (tenant_id : TenantId) : String :=
  "SET LOCAL " ++ TENANT_GUC ++ " = '" ++ tenant_id.asStr ++ "'"

def rlsPolicy (table tenant_column name : String) : String :=
  "CREATE POLICY " ++ quoteIdent name ++ " ON " ++ quoteIdent table ++ " FOR ALL USING (" ++ quoteIdent tenant_column ++
    " = current_setting('" ++ TENANT_GUC ++ "')::uuid)"

def enableRls (table : String) : String := "ALTER TABLE " ++ quoteIdent table ++ " ENABLE ROW LEVEL SECURITY"

def disableRls (table : String) : String := "ALTER TABLE " ++ quoteIdent table ++ " DISABLE ROW LEVEL SECURITY"

/-! ## The tokens -/

theorem toList_quoteIdent (name : String) : (quoteIdent name).toList = quote .ident name.toList := by
  have hone : "\"".toList = ['"'] := by decide
  have htwo : "\"\"".toList = ['"', '"'] := by decide
  simp only [quoteIdent, replace, String.toList_append, String.toList_ofList, hone, htwo]
  rfl

theorem reads_quoteIdent (name : String) : Reads .blank (quoteIdent name) (.marked .ident name.toList) [] := by
  rw [Reads, toList_quoteIdent, run_quote]

/-- What comes after a name. -/
theorem reads_after {s : String} {st : State} {out : List Token} (name : String) (hblank : s.toList.head? = some ' ')
    (h : Reads .blank s st out) : Reads (.marked .ident name.toList) s st (.ident name :: out) := by
  have hmarked := h.marked .ident name.toList hblank
  rwa [Quote.token, String.ofList_toList] at hmarked

theorem quoteIdent_lex (name : String) : lex (quoteIdent name) = some [.ident name] := by
  have hlast : finish (.marked .ident name.toList) = some [.ident name] := by
    rw [finish, Quote.token, String.ofList_toList]
  exact (reads_quoteIdent name).lex hlast

example : lex (quoteIdent "a\" ; --") = some [.ident "a\" ; --"] := by decide

theorem rlsPolicy_lex (table tenant_column name : String) :
    lex (rlsPolicy table tenant_column name) =
      some [.word "CREATE", .word "POLICY", .ident name, .word "ON", .ident table, .word "FOR", .word "ALL",
        .word "USING", .symbol '(', .ident tenant_column, .symbol '=', .word "current_setting", .symbol '(',
        .string TENANT_GUC, .symbol ')', .typecast, .word "uuid", .symbol ')'] := by
  have hcreate : Reads .blank "CREATE POLICY " .blank [.word "CREATE", .word "POLICY"] := by decide
  have hon : Reads .blank " ON " .blank [.word "ON"] := by decide
  have hfor : Reads .blank " FOR ALL USING (" .blank [.word "FOR", .word "ALL", .word "USING", .symbol '('] := by decide
  have hcurrent : Reads .blank " = current_setting('" (.quoted .string [])
      [.symbol '=', .word "current_setting", .symbol '('] := by decide
  have hguc : Reads (.quoted .string []) TENANT_GUC (.quoted .string TENANT_GUC.toList) [] := by decide
  have huuid : Reads (.quoted .string TENANT_GUC.toList) "')::uuid)" .blank
      [.string TENANT_GUC, .symbol ')', .typecast, .word "uuid", .symbol ')'] := by decide
  have hread := hcreate |>.trans (reads_quoteIdent name) |>.trans (reads_after name (by decide) hon)
    |>.trans (reads_quoteIdent table) |>.trans (reads_after table (by decide) hfor)
    |>.trans (reads_quoteIdent tenant_column) |>.trans (reads_after tenant_column (by decide) hcurrent)
    |>.trans hguc |>.trans huuid
  exact hread.lex rfl

/-- `ENABLE` and `DISABLE` differ in their one word. -/
theorem alterTable_lex (table : String) {verb : String} {st : State} {out last : List Token}
    (hblank : verb.toList.head? = some ' ') (hverb : Reads .blank verb st out) (hlast : finish st = some last) :
    lex ("ALTER TABLE " ++ quoteIdent table ++ verb) =
      some (.word "ALTER" :: .word "TABLE" :: .ident table :: (out ++ last)) := by
  have halter : Reads .blank "ALTER TABLE " .blank [.word "ALTER", .word "TABLE"] := by decide
  have hread := halter |>.trans (reads_quoteIdent table) |>.trans (reads_after table hblank hverb)
  exact hread.lex hlast

/-- The id of a tenant holds no quote. -/
theorem setTenantCommand_lex (tenant_id : TenantId) :
    lex (setTenantCommand tenant_id) =
      some [.word "SET", .word "LOCAL", .word "app", .symbol '.', .word "tenant_id", .symbol '=',
        .string tenant_id.asStr] := by
  have hset : Reads .blank "SET LOCAL " .blank [.word "SET", .word "LOCAL"] := by decide
  have hguc : Reads .blank TENANT_GUC (.word "tenant_id".toList) [.word "app", .symbol '.'] := by decide
  have heq : Reads (.word "tenant_id".toList) " = '" (.quoted .string []) [.word "tenant_id", .symbol '='] := by decide
  have hplain : Quote.string.mark ∉ tenant_id.asStr.toList := by
    intro hmem
    exact absurd (Id.mem_asStr hmem) (by decide)
  have hid : Reads (.quoted .string []) tenant_id.asStr (.quoted .string tenant_id.asStr.toList) [] := by
    have hquoted := run_quoted_doubled .string [] tenant_id.asStr.toList
    rwa [doubled_of_notMem .string hplain, List.nil_append] at hquoted
  have hclose : Reads (.quoted .string tenant_id.asStr.toList) "'" (.marked .string tenant_id.asStr.toList) [] := by
    have hmark : "'".toList = [Quote.string.mark] := by decide
    rw [Reads, hmark, run, step, if_pos rfl]
    rfl
  have hlast : finish (.marked .string tenant_id.asStr.toList) = some [.string tenant_id.asStr] := by
    rw [finish, Quote.token, String.ofList_toList]
  have hread := hset |>.trans hguc |>.trans heq |>.trans hid |>.trans hclose
  exact hread.lex hlast

theorem rls_lex :
    (∀ name, lex (quoteIdent name) = some [.ident name]) ∧
      (∀ table tenant_column name, lex (rlsPolicy table tenant_column name) =
        some [.word "CREATE", .word "POLICY", .ident name, .word "ON", .ident table, .word "FOR", .word "ALL",
          .word "USING", .symbol '(', .ident tenant_column, .symbol '=', .word "current_setting", .symbol '(',
          .string TENANT_GUC, .symbol ')', .typecast, .word "uuid", .symbol ')']) ∧
      (∀ table, lex (enableRls table) =
        some [.word "ALTER", .word "TABLE", .ident table, .word "ENABLE", .word "ROW", .word "LEVEL",
          .word "SECURITY"]) ∧
      ∀ table, lex (disableRls table) =
        some [.word "ALTER", .word "TABLE", .ident table, .word "DISABLE", .word "ROW", .word "LEVEL",
          .word "SECURITY"] := by
  refine ⟨quoteIdent_lex, rlsPolicy_lex, ?_, ?_⟩
  · intro table
    have henable : Reads .blank " ENABLE ROW LEVEL SECURITY" (.word "SECURITY".toList)
        [.word "ENABLE", .word "ROW", .word "LEVEL"] := by decide
    exact alterTable_lex table (by decide) henable (by decide)
  · intro table
    have hdisable : Reads .blank " DISABLE ROW LEVEL SECURITY" (.word "SECURITY".toList)
        [.word "DISABLE", .word "ROW", .word "LEVEL"] := by decide
    exact alterTable_lex table (by decide) hdisable (by decide)

end Tenant.Rls

end TptErp
