import ShiftReduce.OrderedSet
import ShiftReduce.Queue
import ShiftReduce.Iterate
import ShiftReduce.Grammar.Samples
import ShiftReduce.ItemSet.Expansion
import ShiftReduce.ItemSet.Text
import ShiftReduce.Automaton.Build
import ShiftReduce.Automaton.Text
import ShiftReduce.Text.Alphanumeric
import ShiftReduce.Text.Blank
import ShiftReduce.Text.Unprintable
import ShiftReduce.Table.Export
import ShiftReduce.Parser.Text
import ShiftReduce.Lexer
import ShiftReduce.Proofs.Grammar.Productions
import ShiftReduce.Proofs.Growth
import ShiftReduce.Proofs.Queue.History
import ShiftReduce.Proofs.Parser.Recognition
import ShiftReduce.Proofs.Automaton.ViablePrefix
import ShiftReduce.Proofs.Parser.Safety
import ShiftReduce.Proofs.Automaton.Due
import ShiftReduce.Proofs.Automaton.LeastLookaheads
import ShiftReduce.Proofs.ItemSet.Discovery
import ShiftReduce.Proofs.Automaton.Skeleton
import ShiftReduce.Proofs.Automaton.Merging
import ShiftReduce.Proofs.Automaton.BreadthFirst
import ShiftReduce.Proofs.Automaton.Canonical
import ShiftReduce.Proofs.Grammar.Limits
import ShiftReduce.Proofs.Table.Decoding
import ShiftReduce.Proofs.Automaton.Conflicts
import ShiftReduce.Proofs.Automaton.ValidLookaheads
import ShiftReduce.Proofs.Grammar.Representation
import ShiftReduce.Proofs.Automaton.FollowBound
import ShiftReduce.Proofs.Parser.Merging
import ShiftReduce.Proofs.Parser.Reordering
import ShiftReduce.Proofs.Parser.Reprinting
import ShiftReduce.Proofs.Parser.Yield
import ShiftReduce.Proofs.FirstFollow.LeastSolution
import ShiftReduce.Proofs.FirstFollow.SententialForms
import ShiftReduce.Proofs.FirstFollow.LooseDerivation
import ShiftReduce.Proofs.ItemSet.LeastClosure
import ShiftReduce.Proofs.ItemSet.Merging
import ShiftReduce.Proofs.ItemSet.Transitions
import ShiftReduce.Proofs.Grammar.Failures
import ShiftReduce.Proofs.Automaton.Termination
import ShiftReduce.Proofs.Lexer
import ShiftReduce.Proofs.Parser.Halting
