import DnsTools.Server.ServeOrder
import DnsTools.MessageQueueWrites
import DnsTools.MessageQueueRoom
import DnsTools.Mig.QueriesWellFormed
import DnsTools.Mig.EmptyLines
import DnsTools.Mig.DomainsRoom
import DnsTools.Mig.ValidNames
import DnsTools.Mig.WalksAgree
import DnsTools.Link.Lossless
import DnsTools.Mig.AskedFirst
import DnsTools.Mig.WireIds
import DnsTools.Mig.Pacing
import DnsTools.Mig.ClientId
import DnsTools.Mig.OptionBlocks
import DnsTools.Mig.NumericOptions
import DnsTools.Server.ServeSurvives
import DnsTools.Server.AnswerCorrect
import DnsTools.Server.StandardQueries
import DnsTools.Server.StaleBuffer
import DnsTools.Server.Wakeups
import DnsTools.Dnstest.Pool
import DnsTools.Dnstest.Questions
import DnsTools.Dnstest.LoadData
import DnsTools.Mem.EqualTimes
import DnsTools.Link.Report
import DnsTools.Link.Accepted
import DnsTools.Analyser.CountChart
import DnsTools.Analyser.RateChart
import DnsTools.Analyser.DelayChart
import DnsTools.Analyser.QueueChart
import DnsTools.Analyser.Fit
import DnsTools.Analyser.Preview
import DnsTools.Mem.Signal
import DnsTools.Mem.StatsFile
import DnsTools.Mig.ProgramBlocks
import DnsTools.Dnstest.Main
import DnsTools.Link.Rates
import DnsTools.Link.Dump
import DnsTools.Server.Program
import DnsTools.Link.Directory
import DnsTools.Link.Search
import DnsTools.Link.Unreliable
import DnsTools.Mig.Counting
import DnsTools.Mig.Wakeups
import DnsTools.Link.Conservation
