import Inn.Rules
import Inn.Probe
import Inn.Chain
import Inn.Resume
import Inn.DirectMapped
import Inn.Stream
import Inn.Dbz.Basic
import Inn.Dbz.Search
import Inn.Dbz.Map
import Inn.Tradindexed.GroupIndex
import Inn.Tradindexed.Layout
import Inn.Tradindexed.Find
import Inn.Tradindexed.Update
import Inn.Tradindexed.Groups
import Inn.Tradindexed.Sharing
import Inn.Tradindexed.Rebuild
import Inn.Tradindexed.Data
import Inn.Tradindexed.Search
import Inn.Tradindexed.Store
import Inn.Tradindexed.Marks
import Inn.Tradindexed.Overview
import Inn.Innd.Channel
import Inn.Innd.Parse
import Inn.Innd.Scan
import Inn.Innd.Split
import Inn.Innd.Terminator
import Inn.Innd.Fields
import Inn.Innd.Reads
import Inn.Innd.Complete
import Inn.Innd.Clean
import Inn.Innd.Store
import Inn.Innd.Checks
import Inn.Tombstone.Basic
import Inn.Tombstone.Crash
import Inn.Tombstone.Appenders
import Inn.Timecaf.Content
import Inn.Timecaf.Sharing
import Inn.Decimal
import Inn.Hex
import Inn.Innd.Active
import Inn.Innd.Xref
import Inn.Innd.Layout
import Inn.Innd.Marks
import Inn.Innd.Numbering
import Inn.Expire.Rules
import Inn.Expire.Crosspost
import Inn.Wip.Table
import Inn.Wip.Ownership
import Inn.History.Line
import Inn.History.Replace
import Inn.History.Cache
import Inn.History.Swap
import Inn.History.Writer
import Inn.Firsts
import Inn.History.Qio
import Inn.History.Expire
import Inn.Buffindexed.Purge
import Inn.Frames
import Inn.Ovsqlite.Requests
import Inn.Ovsqlite.Framing
import Inn.Lines
import Inn.Nnrpd.Line
import Inn.Nnrpd.Wire
import Inn.Nnrpd.Article
import Inn.Nnrpd.Virtual
import Inn.Words
import Inn.Ovsqlite.Database
import Inn.Ovsqlite.Flate
import Inn.Ovsqlite.Server
import Inn.Ovsqlite.Effects
import Inn.Ovsqlite.Sound
import Inn.Ovsqlite.Marks
import Inn.Batches
import Inn.Ovsqlite.Search
import Inn.Ovsqlite.Rows
import Inn.Ovsqlite.Searches
import Inn.Ovsqlite.Stored
import Inn.Tombstone.Readers
import Inn.Dlist
import Inn.Innd.Distribution
import Inn.Innd.Hashfeed
import Inn.Innd.Subscription
import Inn.Innd.Editing
import Inn.Innd.Commands
import Inn.Tokens
import Inn.Nnrpd.Post
import Inn.Nnrpd.Groups
import Inn.Nnrpd.Permissions
import Inn.Nnrpd.Rights
import Inn.Nnrpd.Submit
import Inn.Keyset
import Inn.History.Hissqlite
import Inn.History.InPlace
import Inn.Nnrpd.Readfile
import Inn.Nnrpd.Blocks
import Inn.Nnrpd.Current
import Inn.Nnrpd.Served
import Inn.Nnrpd.Nextlast
import Inn.Libinn.Hashtab
import Inn.Tradindexed.ActiveFile
import Inn.Libinn.Wire
import Inn.SearchTree
import Inn.Tradspool.Map
import Inn.Tradspool.Processes
import Inn.Glob
import Inn.Libinn.Uwildmat
import Inn.Libinn.Letters
import Inn.Libinn.Language
import Inn.Libinn.Expression
import Inn.Calendar
import Inn.Libinn.Date
import Inn.Libinn.DateRoundTrip
import Inn.Tradindexed.Audit
import Inn.Tradindexed.Repair
import Inn.Tradindexed.Repaired
import Inn.Nnrpd.Headers
import Inn.Storage.Overdata
import Inn.Storage.Columns
import Inn.Storage.RoundTrip
import Inn.Libinn.MessageId
import Inn.Nnrpd.HeaderBody
import Inn.Libinn.Cfws
import Inn.Nnrpd.Finding
import Inn.Storage.Checked
import Inn.Libinn.LaxDate
import Inn.Libinn.ZoneWords
import Inn.Libinn.LaxStrict
import Inn.Libinn.LaxComment
import Inn.Tradindexed.Faults
import Inn.Tradindexed.Packing
import Inn.Tradindexed.Closing
import Inn.Tradindexed.Cache
import Inn.Cnfs.UsedBlock
import Inn.Cnfs.Cancel
import Inn.Buffindexed.Gettoken
import Inn.Storage.TimePaths
import Inn.Tradspool.Token
import Inn.Storage.ConfigLines
import Inn.Quoting
import Inn.Confparse.Quoted
import Inn.Confparse.Print
import Inn.Threaded
import Inn.Confparse.Parse
import Inn.Confparse.Find
import Inn.Confparse.Lookup
import Inn.Innfeed.Buffer
import Inn.Innfeed.Buffers
import Inn.Innfeed.LockFile
import Inn.Override
import Inn.Expire.Control
import Inn.Expire.Keep
import Inn.Storage.Ov
import Inn.Buffindexed.Cached
import Inn.Buffindexed.Addrec
import Inn.Libinn.QioRead
