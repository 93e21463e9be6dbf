import YangFormatter.Reading.Statement

/-! # Building the tree

The tree is built token by token with a stack of open blocks, so that blocks may
nest as deep as they like. Only the structure of blocks and statements is checked:
any statement may stand in any block.
-/

namespace YangFormatter

/-- A block that has not been closed. -/
structure OpenBlock where
  /-- The statement that opened it. -/
  header : Header
  /-- The nodes before that statement, newest first. -/
  before : List Node
deriving Repr

/-- Where in a file the next token stands. -/
inductive Place where
  /-- Between statements; after nothing but white space since a line break, or not. -/
  | between (afterBreak : Bool)
  /-- Inside the header of a statement. -/
  | inHeader (state : HeaderState)
  /-- After a header, on the same line. -/
  | afterHeader (header : Header) (opens : Bool)
deriving DecidableEq, Repr

/-- A tree of which only a part has been read. -/
structure TreeBuilder where
  /-- The open blocks, innermost first. -/
  blocks : List OpenBlock := []
  /-- The nodes of the innermost block so far, newest first. -/
  siblings : List Node := []
  /-- Where the next token stands. -/
  place : Place := .between false
  /-- The start of the last token that was met between statements. -/
  lastStart : Nat := 0
deriving Repr

namespace TreeBuilder

/-- Adds the statement whose header is complete: a leaf, or a block to be filled. -/
def addStatement (builder : TreeBuilder) (header : Header) (opens : Bool) : TreeBuilder :=
  if opens then
    { builder with
      blocks := ⟨header, builder.siblings⟩ :: builder.blocks
      siblings := []
      place := .between false }
  else
    { builder with
      siblings := .leaf header :: builder.siblings
      place := .between false }

/-- Goes on with what a token does to a header. -/
def afterStep (builder : TreeBuilder) : HeaderStep → Except Cause TreeBuilder
  | .more state => .ok { builder with place := .inHeader state }
  | .finished header opens => .ok { builder with place := .afterHeader header opens }
  | .refused cause => .error cause

/-- Reads a token between statements. -/
def stepBetween (builder : TreeBuilder) (afterBreak : Bool) (token : Token) :
    Except Cause TreeBuilder :=
  let here := { builder with lastStart := token.start }
  match token.kind with
  | .whitespace => .ok { here with place := .between afterBreak }
  | .lineBreak =>
      .ok { here with
        siblings :=
          if afterBreak then .emptyLine token.text :: builder.siblings else builder.siblings
        place := .between true }
  | .comment =>
      .ok { here with
        siblings := .comment token.text :: builder.siblings
        place := .between false }
  | .closeBlock =>
      match builder.blocks with
      | [] => .error .unexpectedClosingBrace
      | block :: outer =>
          .ok { here with
            blocks := outer
            siblings := .block block.header builder.siblings.reverse :: block.before
            place := .between false }
  | _ => here.afterStep (HeaderState.start.step token.toLexeme)

/-- Reads one more token. -/
def step (builder : TreeBuilder) (token : Token) : Except Cause TreeBuilder :=
  match builder.place with
  | .between afterBreak => builder.stepBetween afterBreak token
  | .inHeader state => builder.afterStep (state.step token.toLexeme)
  | .afterHeader header opens =>
      match token.kind with
      | .whitespace => .ok builder
      | .comment =>
          let header := { header with postComments := header.postComments ++ [token.text] }
          .ok { builder with place := .afterHeader header opens }
      | _ => (builder.addStatement header opens).stepBetween false token

/-- Whether a token that is refused for this cause has been consumed. -/
def consumes : Cause → Bool
  | .unexpectedClosingBrace => false
  | _ => true

/-- Reads tokens until there are none left, or until one is refused; then the
tokens that were not consumed are left over. -/
def run (builder : TreeBuilder) : List Token → Except (Problem × List Token) TreeBuilder
  | [] => .ok builder
  | token :: tokens =>
      match builder.step token with
      | .ok next => next.run tokens
      | .error cause =>
          .error (⟨cause, token.start⟩, if consumes cause then tokens else token :: tokens)

/-- The finished nodes, if all blocks are closed. -/
def close (builder : TreeBuilder) : Except Problem (List Node) :=
  if builder.blocks.isEmpty then .ok builder.siblings.reverse
  else .error ⟨.unclosedBlock, builder.lastStart⟩

/-- Completes the tree at the end of the text. -/
def finish (builder : TreeBuilder) (stop : Nat) : Except Problem (List Node) :=
  match builder.place with
  | .between _ => builder.close
  | .afterHeader header opens => (builder.addStatement header opens).close
  | .inHeader _ => .error ⟨.unexpectedEnd, stop⟩

end TreeBuilder

/-- Reads all that is left on a stream as a tree. -/
def TokenStream.readTree (stream : TokenStream) : Except Problem (List Node) × TokenStream :=
  match TreeBuilder.run {} stream.tokens with
  | .error (problem, tokens) => (.error problem, { stream with tokens })
  | .ok builder =>
      let spent := { stream with tokens := [], fault := none }
      match stream.fault with
      | some problem => (.error problem, spent)
      | none => (builder.finish stream.stop, spent)

/-- The tree of a text. -/
def Text.parse (text : Text) : Except Problem (List Node) :=
  (TokenStream.ofText text).readTree.1

/-- The tree of a source. -/
def Source.parse (source : Source) : Except Problem (List Node) :=
  source.decode.bind Text.parse

end YangFormatter
